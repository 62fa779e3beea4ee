import Mathlib.Data.List.Nodup
import Mathlib.Data.List.ReduceOption
import Fireworks.Arithmetic.Extended
import Fireworks.Proofs.NameTable
import Fireworks.Show.Loader

/-! # Merging documents

A show is collected from one document after another, and each of them may be at fault. Programs are only
added, behind those that are there, and no program takes the place of another. A document with a known id
is taken over up to that program, and gives no launches.
-/
namespace Fireworks
variable {ν : Type}

namespace Load
variable {α β : Type} {s after : Show ν} {load : Load ν α} (next : α → Load ν β)

theorem run_bind_of_ok {a : α} (h : load.run.run s = (.ok a,after)) :
    (load >>= next).run.run s = (next a).run.run after := by
  have hrun : (load >>= next).run.run s =
      (ExceptT.bindCont next (load.run.run s).1).run (load.run.run s).2 := rfl
  rw [hrun,h]
  rfl

theorem run_bind_of_error {e : ShowError} (h : load.run.run s = (.error e,after)) :
    (load >>= next).run.run s = (.error e,after) := by
  have hrun : (load >>= next).run.run s =
      (ExceptT.bindCont next (load.run.run s).1).run (load.run.run s).2 := rfl
  rw [hrun,h]
  rfl

def document : Option (Definition ν) → Load ν Unit
  | none => throw .malformed
  | some d => definition d

theorem text_eq_document (content : String) :
    text content = document (Document.definition.format.parse? content) := by
  rw [text]
  cases (Document.definition (ν := Float)).format.parse? content <;> rfl

end Load

theorem notMem_of_nodup {α : Type} {names rest : List α} {a : α} (h : (names ++ a :: rest).Nodup) :
    a ∉ names := fun hmem => (List.nodup_append.mp h).2.2 a hmem a List.mem_cons_self rfl

/-- A list of programs up to the first that is known, by the ids of those before it or by other names. -/
structure Clash (names : List String) (programs kept : List (Program ν)) (p : Program ν) : Prop where
  split : ∃ rest, programs = kept ++ p :: rest
  fresh : (names ++ kept.map (·.id)).Nodup
  known : p.id ∈ names ++ kept.map (·.id)

namespace Clash
variable {names : List String} {programs kept : List (Program ν)} {p : Program ν}

theorem exists_of_not_nodup (hnames : names.Nodup) (h : ¬ (names ++ programs.map (·.id)).Nodup) :
    ∃ kept p, Clash names programs kept p := by
  induction programs generalizing names with
  | nil => exact absurd (by rwa [List.map_nil,List.append_nil]) h
  | cons p rest ih =>
    by_cases hp : p.id ∈ names
    · exact ⟨[],p,⟨rest,rfl⟩,by rwa [List.map_nil,List.append_nil],List.mem_append_left _ hp⟩
    · have hnext := hnames.concat hp
      rw [List.concat_eq_append] at hnext
      rw [List.map_cons,List.append_cons] at h
      obtain ⟨kept,q,⟨after,hsplit⟩,hfresh,hknown⟩ := ih hnext h
      refine ⟨p :: kept,q,⟨after,by rw [hsplit,List.cons_append]⟩,?_,?_⟩
      · rwa [List.map_cons,List.append_cons]
      · rwa [List.map_cons,List.append_cons]

end Clash

namespace Show
variable (s : Show ν)

/-- A show with programs behind its own. -/
def add (programs : List (Program ν)) : Show ν :=
  { s with programs := ⟨s.programs.entries ++ programs.map fun p => (p.id,p)⟩ }

theorem names_add (programs : List (Program ν)) :
    (s.add programs).programs.names = s.programs.names ++ programs.map (·.id) := by
  simp only [add,NameTable.names,List.map_append,List.map_map]
  rfl

theorem add_nil : s.add [] = s := by
  rw [add,List.map_nil,List.append_nil]

theorem add_add (programs more : List (Program ν)) : (s.add programs).add more = s.add (programs ++ more) := by
  simp only [add,List.map_append,List.append_assoc]

variable {s} {p : Program ν} {programs kept : List (Program ν)}

theorem program_run : (Load.program p).run.run s =
    if s.programs.contains p.id then (.error (.duplicate p.id),s)
    else (.ok (),{ s with programs := s.programs.insert p.id p }) := by
  have hrun : (Load.program p).run.run s = (if s.programs.contains p.id then throw (.duplicate p.id) else
      modify fun s => { s with programs := s.programs.insert p.id p } : Load ν Unit).run.run s := rfl
  rw [hrun]
  split_ifs <;> rfl

theorem program_of_notMem (h : p.id ∉ s.programs.names) :
    (Load.program p).run.run s = (.ok (),s.add [p]) := by
  have hcontains : ¬ s.programs.contains p.id = true := fun hc => h (NameTable.contains_iff.mp hc)
  rw [program_run,if_neg hcontains,NameTable.insert_of_notMem h]
  rfl

theorem program_of_mem (h : p.id ∈ s.programs.names) :
    (Load.program p).run.run s = (.error (.duplicate p.id),s) := by
  rw [program_run,if_pos (NameTable.contains_iff.mpr h)]

theorem programs_of_nodup (h : (s.programs.names ++ programs.map (·.id)).Nodup) :
    (programs.forM Load.program).run.run s = (.ok (),s.add programs) := by
  induction programs generalizing s with
  | nil =>
    rw [add_nil]
    rfl
  | cons p rest ih =>
    have hp : p.id ∉ s.programs.names := notMem_of_nodup h
    rw [List.map_cons,List.append_cons] at h
    have hrest := ih (s := s.add [p]) (by rwa [names_add])
    rw [add_add] at hrest
    exact (Load.run_bind_of_ok _ (program_of_notMem hp)).trans hrest

theorem programs_of_clash (h : Clash s.programs.names programs kept p) :
    (programs.forM Load.program).run.run s = (.error (.duplicate p.id),s.add kept) := by
  -- Each program in front of the clash joins the known ones; the clash stays one throughout.
  obtain ⟨⟨rest,rfl⟩,hfresh,hknown⟩ := h
  induction kept generalizing s with
  | nil =>
    rw [List.map_nil,List.append_nil] at hknown
    rw [add_nil]
    exact Load.run_bind_of_error _ (program_of_mem hknown)
  | cons q kept ih =>
    have hq : q.id ∉ s.programs.names := notMem_of_nodup hfresh
    rw [List.map_cons,List.append_cons] at hfresh hknown
    have hrest := ih (s := s.add [q]) (by rwa [names_add]) (by rwa [names_add])
    rw [add_add] at hrest
    exact (Load.run_bind_of_ok _ (program_of_notMem hq)).trans hrest

def headed (s : Show ν) (d : Definition ν) : Show ν :=
  { s with name := if s.name.isEmpty then d.name else s.name, config := d.config.getD s.config }

/-- What becomes of a show with a document, and what the load says. -/
def take (s : Show ν) (document : Option (Definition ν)) : Except ShowError Unit × Show ν :=
  (Load.document document).run.run s

variable {d : Definition ν}

theorem headed_run : (modify (headed · d) : Load ν Unit).run.run s = (.ok (),s.headed d) := rfl

theorem take_of_nodup (h : (s.programs.names ++ d.programs.map (·.id)).Nodup) :
    s.take (some d) = (.ok (),
      { (s.headed d).add d.programs with launches := s.launches ++ d.launches }) := by
  have hprograms := programs_of_nodup (s := s.headed d) h
  exact (Load.run_bind_of_ok _ headed_run).trans (Load.run_bind_of_ok _ hprograms)

theorem take_of_clash (h : Clash s.programs.names d.programs kept p) :
    s.take (some d) = (.error (.duplicate p.id),(s.headed d).add kept) := by
  have hprograms := programs_of_clash (s := s.headed d) h
  exact (Load.run_bind_of_ok _ headed_run).trans (Load.run_bind_of_error _ hprograms)

end Show
/-- The programs that a load comes to: up to the first whose id is known, and that one. -/
def Load.reach (names : List String) : List (Program ν) → List (Program ν)
  | [] => []
  | p :: rest => if p.id ∈ names then [p] else p :: reach (names ++ [p.id]) rest

theorem Load.reach_of_nodup {names : List String} {programs : List (Program ν)}
    (h : (names ++ programs.map (·.id)).Nodup) : reach names programs = programs := by
  induction programs generalizing names with
  | nil => rfl
  | cons p rest ih =>
    have hp : p.id ∉ names := notMem_of_nodup h
    rw [List.map_cons,List.append_cons] at h
    rw [reach,if_neg hp,ih h]

theorem Clash.reach_eq {names : List String} {programs kept : List (Program ν)} {p : Program ν}
    (h : Clash names programs kept p) : Load.reach names programs = kept ++ [p] := by
  obtain ⟨⟨rest,rfl⟩,hfresh,hknown⟩ := h
  induction kept generalizing names with
  | nil =>
    rw [List.map_nil,List.append_nil] at hknown
    rw [List.nil_append,Load.reach,if_pos hknown,List.nil_append]
  | cons q kept ih =>
    have hq : q.id ∉ names := notMem_of_nodup hfresh
    rw [List.map_cons,List.append_cons] at hfresh hknown
    rw [List.cons_append,Load.reach,if_neg hq,ih hfresh hknown,List.cons_append]

theorem find?_entries (programs : List (Program ν)) (id : String) :
    (⟨programs.map fun p => (p.id,p)⟩ : NameTable (Program ν)).find? id = programs.find? (·.id = id) := by
  induction programs with
  | nil => rfl
  | cons p rest ih =>
    have hlookup := NameTable.lookup_entry p.id id p (rest.map fun p => (p.id,p))
    rw [List.find?_cons,← ih]
    refine hlookup.trans ?_
    by_cases hid : id = p.id
    · rw [if_pos hid,decide_eq_true hid.symm]
    · rw [if_neg hid,decide_eq_false (Ne.symm hid)]
      rfl

/-- The table of all programs that loads have come to: each of them stands under its own id, unless another
one came to that id before, and in the order in which they came up. -/
structure Gathered (table : NameTable (Program ν)) (reached : List (Program ν)) : Prop where
  nodup : table.names.Nodup
  key : ∀ entry ∈ table.entries, entry.1 = entry.2.id
  order : table.values.Sublist reached
  first : ∀ id, table.find? id = reached.find? (·.id = id)

namespace Gathered
variable {table : NameTable (Program ν)} {reached programs : List (Program ν)} {s : Show ν}

theorem add (h : Gathered s.programs reached) (hfresh : (s.programs.names ++ programs.map (·.id)).Nodup) :
    Gathered (s.add programs).programs (reached ++ programs) where
  nodup := by rwa [Show.names_add]
  key entry hentry := by
    rcases List.mem_append.mp hentry with hmem | hmem
    · exact h.key entry hmem
    · obtain ⟨p,-,rfl⟩ := List.mem_map.mp hmem
      rfl
  order := by
    have hvalues : (s.add programs).programs.values = s.programs.values ++ programs := by
      simp only [Show.add,NameTable.values,List.map_append,List.map_map]
      exact congrArg _ (List.map_id programs)
    rw [hvalues]
    exact h.order.append_right programs
  first id := by
    rw [Show.add,NameTable.find?_append,find?_entries,List.find?_append,← h.first id]

/-- A program whose id is known comes too late. -/
theorem late (h : Gathered table reached) {p : Program ν} (hp : p.id ∈ table.names) :
    Gathered table (reached ++ [p]) where
  nodup := h.nodup
  key := h.key
  order := h.order.trans (List.sublist_append_left _ _)
  first id := by
    -- Under its own id another program is found first, and under any other id it is not found.
    rw [List.find?_append,← h.first id]
    by_cases hid : p.id = id
    · obtain ⟨value,hvalue⟩ := NameTable.mem_names_iff.mp (hid ▸ hp)
      rw [hvalue,Option.some_or]
    · rw [List.find?_singleton,if_neg (by simpa using hid),Option.or_none]

end Gathered

/-- A document given to a show. -/
structure Loading (ν : Type) where
  before : Show ν
  document : Option (Definition ν)

namespace Loading
variable (l : Loading ν)

def answer : Except ShowError Unit := (l.before.take l.document).1

def after : Show ν := (l.before.take l.document).2

def reached : List (Program ν) :=
  l.document.elim [] fun d => Load.reach l.before.programs.names d.programs

def launches : List (Launch ν) := l.document.elim [] (·.launches)

/-- What a load does. A text that is no document changes nothing. A document fails with the first id that is
known, whether it was loaded before or stands twice, and leaves behind exactly the programs in front of it;
any other is taken over as a whole, with its launches. -/
structure Lawful : Prop where
  malformed : l.document = none → l.answer = .error .malformed ∧ l.after = l.before
  ok_iff : ∀ d ∈ l.document, l.answer = .ok () ↔
    (∀ p ∈ d.programs, p.id ∉ l.before.programs.names) ∧ (d.programs.map (·.id)).Nodup
  error_iff : ∀ d ∈ l.document, ∀ e, l.answer = .error e ↔
    ∃ kept p, Clash l.before.programs.names d.programs kept p ∧ e = .duplicate p.id
  whole : ∀ d ∈ l.document, l.answer = .ok () →
    l.after.programs = (l.before.add d.programs).programs ∧
      l.after.launches = l.before.launches ++ d.launches
  stopped : ∀ d ∈ l.document, ∀ kept p, Clash l.before.programs.names d.programs kept p →
    l.after.programs = (l.before.add kept).programs ∧ l.after.launches = l.before.launches

variable {l}

section
variable {s : Show ν} {d : Definition ν}

theorem answer_of_clash {kept : List (Program ν)} {p : Program ν}
    (h : Clash s.programs.names d.programs kept p) : answer ⟨s,some d⟩ = .error (.duplicate p.id) :=
  congrArg Prod.fst (Show.take_of_clash h)

variable (hnames : s.programs.names.Nodup)
include hnames

theorem nodup_ids_iff : (s.programs.names ++ d.programs.map (·.id)).Nodup ↔
    (∀ p ∈ d.programs, p.id ∉ s.programs.names) ∧ (d.programs.map (·.id)).Nodup := by
  rw [List.nodup_append]
  constructor
  · rintro ⟨-,hnodup,hdisjoint⟩
    exact ⟨fun p hp hmem => hdisjoint p.id hmem p.id (List.mem_map_of_mem hp) rfl,hnodup⟩
  · rintro ⟨hnew,hnodup⟩
    refine ⟨hnames,hnodup,fun id hid other hother heq => ?_⟩
    obtain ⟨p,hp,rfl⟩ := List.mem_map.mp hother
    exact hnew p hp (heq ▸ hid)

theorem answer_eq_ok_iff :
    answer ⟨s,some d⟩ = .ok () ↔ (s.programs.names ++ d.programs.map (·.id)).Nodup := by
  constructor
  · intro hanswer
    by_contra hnodup
    obtain ⟨kept,p,hclash⟩ := Clash.exists_of_not_nodup hnames hnodup
    rw [answer_of_clash hclash] at hanswer
    cases hanswer
  · exact fun hnodup => congrArg Prod.fst (Show.take_of_nodup hnodup)

theorem answer_eq_error_iff {e : ShowError} : answer ⟨s,some d⟩ = .error e ↔
    ∃ kept p, Clash s.programs.names d.programs kept p ∧ e = .duplicate p.id := by
  constructor
  · intro hanswer
    have hnodup : ¬ (s.programs.names ++ d.programs.map (·.id)).Nodup := fun hnodup => by
      rw [(answer_eq_ok_iff hnames).mpr hnodup] at hanswer
      cases hanswer
    obtain ⟨kept,p,hclash⟩ := Clash.exists_of_not_nodup hnames hnodup
    rw [answer_of_clash hclash] at hanswer
    exact ⟨kept,p,hclash,(Except.error.inj hanswer).symm⟩
  · rintro ⟨kept,p,hclash,rfl⟩
    exact answer_of_clash hclash

end

theorem lawful (h : l.before.programs.names.Nodup) : l.Lawful := by
  obtain ⟨s,document⟩ := l
  cases document with
  | none => exact ⟨fun _ => ⟨rfl,rfl⟩,nofun,nofun,nofun,nofun⟩
  | some d =>
    refine ⟨nofun,?_,?_,?_,?_⟩
    · rintro _ ⟨⟩
      exact (answer_eq_ok_iff h).trans (nodup_ids_iff h)
    · rintro _ ⟨⟩ e
      exact answer_eq_error_iff h
    · rintro _ ⟨⟩ hanswer
      have htake := congrArg Prod.snd (Show.take_of_nodup ((answer_eq_ok_iff h).mp hanswer))
      exact ⟨congrArg (·.programs) htake,congrArg (·.launches) htake⟩
    · rintro _ ⟨⟩ kept p hclash
      have htake := congrArg Prod.snd (Show.take_of_clash hclash)
      exact ⟨congrArg (·.programs) htake,congrArg (·.launches) htake⟩

/-- What a load comes to is gathered behind what was gathered before. -/
theorem gathered {reached : List (Program ν)} (h : Gathered l.before.programs reached) :
    Gathered l.after.programs (reached ++ l.reached) := by
  obtain ⟨s,document⟩ := l
  cases document with
  | none =>
    have hreached : Loading.reached (⟨s,none⟩ : Loading ν) = [] := rfl
    rw [hreached,List.append_nil]
    exact h
  | some d =>
    have hreached : Loading.reached ⟨s,some d⟩ = Load.reach s.programs.names d.programs := rfl
    by_cases hnodup : (s.programs.names ++ d.programs.map (·.id)).Nodup
    · rw [hreached,Load.reach_of_nodup hnodup,after,Show.take_of_nodup hnodup]
      exact h.add hnodup
    · obtain ⟨kept,p,hclash⟩ := Clash.exists_of_not_nodup h.nodup hnodup
      have hkept : Gathered ((s.headed d).add kept).programs (reached ++ kept) := h.add hclash.fresh
      rw [hreached,hclash.reach_eq,after,Show.take_of_clash hclash,← List.append_assoc]
      refine hkept.late ?_
      rw [Show.names_add]
      exact hclash.known

/-- The name and the configuration of a document count, whether or not it is taken over as a whole. -/
theorem head_after (h : l.before.programs.names.Nodup) : ∀ d ∈ l.document,
    l.after.name = (l.before.headed d).name ∧ l.after.config = (l.before.headed d).config := by
  obtain ⟨s,document⟩ := l
  rintro d ⟨⟩
  by_cases hnodup : (s.programs.names ++ d.programs.map (·.id)).Nodup
  · rw [after,Show.take_of_nodup hnodup]
    exact ⟨rfl,rfl⟩
  · obtain ⟨kept,p,hclash⟩ := Clash.exists_of_not_nodup h hnodup
    rw [after,Show.take_of_clash hclash]
    exact ⟨rfl,rfl⟩

theorem launches_after (h : l.before.programs.names.Nodup) :
    l.after.launches = l.before.launches ++ if l.answer.isOk then l.launches else [] := by
  have hlawful := lawful h
  obtain ⟨s,document⟩ := l
  cases document with
  | none => exact (List.append_nil _).symm
  | some d =>
    cases hanswer : answer ⟨s,some d⟩ with
    | ok =>
      exact (hlawful.whole d rfl hanswer).2
    | error e =>
      obtain ⟨kept,p,hclash,-⟩ := (hlawful.error_iff d rfl e).mp hanswer
      rw [(hlawful.stopped d rfl kept p hclash).2]
      exact (List.append_nil _).symm

end Loading

namespace Show

/-- A show after documents that were given to it one after the other. -/
def collect (s : Show ν) (documents : List (Option (Definition ν))) : Show ν :=
  documents.foldl (fun s document => (s.take document).2) s

/-- The loads of documents one after the other. -/
def loadings (s : Show ν) : List (Option (Definition ν)) → List (Loading ν)
  | [] => []
  | document :: rest => ⟨s,document⟩ :: loadings (s.take document).2 rest

variable {s : Show ν}

theorem gathered_collect {reached : List (Program ν)} (h : Gathered s.programs reached)
    (documents : List (Option (Definition ν))) :
    Gathered (s.collect documents).programs (reached ++ (s.loadings documents).flatMap (·.reached)) ∧
      ∀ l ∈ s.loadings documents, l.Lawful := by
  induction documents generalizing s reached with
  | nil => exact ⟨by rwa [loadings,List.flatMap_nil,List.append_nil],List.forall_mem_nil _⟩
  | cons document rest ih =>
    have hfirst : Loading.Lawful ⟨s,document⟩ := Loading.lawful h.nodup
    obtain ⟨hgathered,hlawful⟩ := ih (Loading.gathered (l := ⟨s,document⟩) h)
    rw [List.append_assoc] at hgathered
    exact ⟨hgathered,List.forall_mem_cons.mpr ⟨hfirst,hlawful⟩⟩

theorem launches_collect {reached : List (Program ν)} (h : Gathered s.programs reached)
    (documents : List (Option (Definition ν))) : (s.collect documents).launches =
      s.launches ++ ((s.loadings documents).filter (·.answer.isOk)).flatMap (·.launches) := by
  induction documents generalizing s reached with
  | nil => exact (List.append_nil _).symm
  | cons document rest ih =>
    have hfirst := Loading.launches_after (l := ⟨s,document⟩) h.nodup
    have hrest := ih (Loading.gathered (l := ⟨s,document⟩) h)
    refine hrest.trans ?_
    rw [hfirst,List.append_assoc,loadings,List.filter_cons]
    split_ifs <;> rfl

theorem name_collect {reached : List (Program ν)} (h : Gathered s.programs reached)
    (documents : List (Option (Definition ν))) : (s.collect documents).name =
      ((s.name :: documents.reduceOption.map (·.name)).find? (!·.isEmpty)).getD "" := by
  induction documents generalizing s reached with
  | nil =>
    change s.name = ([s.name].find? (!·.isEmpty)).getD ""
    by_cases hname : s.name.isEmpty = true
    · rw [List.find?_cons_of_neg (by simpa using hname),List.find?_nil]
      exact String.isEmpty_iff.mp hname
    · rw [List.find?_cons_of_pos (by simpa using hname),Option.getD_some]
  | cons document rest ih =>
    have hrest := ih (Loading.gathered (l := ⟨s,document⟩) h)
    refine hrest.trans ?_
    cases document with
    | none => rfl
    | some d =>
      have hname := (Loading.head_after (l := ⟨s,some d⟩) h.nodup d rfl).1
      rw [hname,List.reduceOption_cons_of_some,List.map_cons]
      by_cases hempty : s.name.isEmpty = true
      · have hnamed : (s.headed d).name = d.name := if_pos hempty
        rw [hnamed,List.find?_cons_of_neg (a := s.name) (by simpa using hempty)]
      · have hnamed : (s.headed d).name = s.name := if_neg hempty
        rw [hnamed,List.find?_cons_of_pos (by simpa using hempty),
          List.find?_cons_of_pos (by simpa using hempty)]

theorem config_collect {reached : List (Program ν)} (h : Gathered s.programs reached)
    (documents : List (Option (Definition ν))) : (s.collect documents).config =
      (documents.reduceOption.filterMap (·.config)).getLastD s.config := by
  induction documents generalizing s reached with
  | nil => rfl
  | cons document rest ih =>
    have hrest := ih (Loading.gathered (l := ⟨s,document⟩) h)
    refine hrest.trans ?_
    cases document with
    | none => rfl
    | some d =>
      have hconfig := (Loading.head_after (l := ⟨s,some d⟩) h.nodup d rfl).2
      rw [hconfig,List.reduceOption_cons_of_some]
      cases hgiven : d.config with
      | none =>
        rw [List.filterMap_cons_none hgiven,headed,hgiven]
        rfl
      | some config =>
        rw [List.filterMap_cons_some hgiven,List.getLastD_cons,headed,hgiven]
        rfl

/-- Loads merge, and no definition takes the place of another. From the empty show on, whichever loads fail,
the programs are those that came first under their ids, each load does what it should, the launches are
those of the loads that succeeded, and the first name that is not empty and the last configuration count
among all documents. A text is loaded as the document that is read from it. -/
theorem collect_merges [Arithmetic ν] (documents : List (Option (Definition ν))) :
    (∀ content, Load.text content = Load.document (Document.definition.format.parse? content)) ∧
      Gathered ((empty : Show ν).collect documents).programs
        ((empty.loadings documents).flatMap (·.reached)) ∧
      (∀ l ∈ (empty : Show ν).loadings documents, l.Lawful) ∧
      ((empty : Show ν).collect documents).launches =
        ((empty.loadings documents).filter (·.answer.isOk)).flatMap (·.launches) ∧
      ((empty : Show ν).collect documents).name =
        ((documents.reduceOption.map (·.name)).find? (!·.isEmpty)).getD "" ∧
      ((empty : Show ν).collect documents).config =
        (documents.reduceOption.filterMap (·.config)).getLastD .default := by
  have hempty : Gathered (empty : Show ν).programs [] :=
    ⟨List.nodup_nil,List.forall_mem_nil _,List.Sublist.refl [],fun _ => rfl⟩
  obtain ⟨hgathered,hlawful⟩ := gathered_collect hempty documents
  have hblank : (empty : Show ν).name = "" := rfl
  have hname := name_collect hempty documents
  rw [hblank,List.find?_cons_of_neg (by decide)] at hname
  exact ⟨Load.text_eq_document,hgathered,hlawful,launches_collect hempty documents,hname,
    config_collect hempty documents⟩

example : ((empty : Show Extended).collect
    [some { programs := [⟨"opening","",[]⟩,⟨"finale","",[]⟩] },none,
      some { name := "Night", programs := [⟨"rain","",[]⟩,⟨"opening","",[]⟩,⟨"stars","",[]⟩] }]).programs.names =
    ["opening","finale","rain"] := by decide

end Show
end Fireworks
