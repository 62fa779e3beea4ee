import Mathlib.Data.List.Nodup
import Fireworks.FileTree

/-! # What stands in a tree of files

Every file of a tree stands at one path. In a tree as file systems have them, entries have names of their own
that lead nowhere else, and trees that files and directories are added to stay such trees.
-/
namespace Fireworks.FileTree

theorem induct {motive : FileTree → Prop} (file : ∀ bytes, motive (.file bytes))
    (directory : ∀ entries, (∀ entry ∈ entries, motive entry.2) → motive (.directory entries))
    (tree : FileTree) : motive tree :=
  @FileTree.rec motive (fun entries => ∀ entry ∈ entries, motive entry.2) (fun entry => motive entry.2)
    file directory (List.forall_mem_nil _) (fun _ _ ih ihs => List.forall_mem_cons.mpr ⟨ih,ihs⟩)
    (fun _ _ ih => ih) tree

/-- A property of a directory and of all directories in it, at every depth. -/
inductive Everywhere (P : List (String × FileTree) → Prop) : FileTree → Prop
  | file (bytes) : Everywhere P (.file bytes)
  | directory {entries} : P entries → (∀ entry ∈ entries, Everywhere P entry.2) →
      Everywhere P (.directory entries)

theorem Everywhere.here {P : List (String × FileTree) → Prop} {entries : List (String × FileTree)}
    (h : Everywhere P (.directory entries)) : P entries := by
  cases h with
  | directory h _ => exact h

theorem Everywhere.entry {P : List (String × FileTree) → Prop} {entries : List (String × FileTree)}
    (h : Everywhere P (.directory entries)) {entry : String × FileTree} (hentry : entry ∈ entries) :
    entry.2.Everywhere P := by
  cases h with
  | directory _ h => exact h entry hentry

/-- What may be the name of an entry. -/
structure IsName (name : String) : Prop where
  slash : '/' ∉ name.toList
  empty : name ≠ ""
  here : name ≠ "."
  above : name ≠ ".."

/-- Entries have names, each of them its own. -/
def Named (entries : List (String × FileTree)) : Prop :=
  (∀ entry ∈ entries, IsName entry.1) ∧ (entries.map Prod.fst).Nodup

def WellFormed (tree : FileTree) : Prop := tree.Everywhere Named

mutual

/-- All files of a tree, each with the names on the way to it. -/
def files : FileTree → List (List String × ByteArray)
  | .file bytes => [([],bytes)]
  | .directory entries => filesIn entries

def filesIn : List (String × FileTree) → List (List String × ByteArray)
  | [] => []
  | (name, tree) :: rest => (tree.files.map fun f => (name :: f.1,f.2)) ++ filesIn rest

end

/-- The path of an entry of a directory. -/
def join (path name : String) : String :=
  if path = "" ∨ path.toList.getLast? = some '/' then path ++ name else path ++ "/" ++ name

/-! ## What stands at a path -/

section
variable {name : String}

theorem walk_cons (above : List FileTree) (entries : List (String × FileTree)) (step : String)
    (path : List String) : walk above (.directory entries) (step :: path) =
      if step = "" ∨ step = "." then walk above (.directory entries) path
      else if step = ".." then
        match above with
        | [] => none
        | parent :: above => walk above parent path
      else (entries.lookup step).bind fun entry => walk (.directory entries :: above) entry path := rfl

/-- The step to an entry looks at the directory only, not at what lies above it. -/
theorem walk_concat (hname : IsName name) (above : List FileTree) (tree : FileTree) (path : List String) :
    walk above tree (path ++ [name]) = (walk above tree path).bind (·.entries.lookup name) := by
  induction path generalizing above tree with
  | nil =>
    cases tree with
    | file bytes => rfl
    | directory entries =>
      have hstay : ¬(name = "" ∨ name = ".") := fun h => h.elim hname.empty hname.here
      rw [List.nil_append,walk_cons,if_neg hstay,if_neg hname.above]
      exact Option.bind_fun_some (entries.lookup name)
  | cons step path ih =>
    cases tree with
    | file bytes => rfl
    | directory entries =>
      rw [List.cons_append,walk_cons,walk_cons]
      split_ifs
      · exact ih above _
      · cases above with
        | nil => rfl
        | cons parent above => exact ih above parent
      · cases entries.lookup step with
        | none => rfl
        | some entry => exact ih _ entry

theorem walk_concat_empty (above : List FileTree) (tree : FileTree) (path : List String) :
    walk above tree (path ++ [""]) = (walk above tree path).filter isDirectory := by
  induction path generalizing above tree with
  | nil => cases tree <;> rfl
  | cons step path ih =>
    cases tree with
    | file bytes => rfl
    | directory entries =>
      rw [List.cons_append,walk_cons,walk_cons]
      split_ifs
      · exact ih above _
      · cases above with
        | nil => rfl
        | cons parent above => exact ih above parent
      · cases entries.lookup step with
        | none => rfl
        | some entry => exact ih _ entry

theorem steps_of_name (hname : IsName name) : steps name = [name] := by
  rw [steps,List.splitOn_eq_singleton hname.slash,List.map_singleton,String.ofList_toList]

theorem steps_append (hname : IsName name) (path : String) : steps (path ++ "/" ++ name) = steps path ++ [name] := by
  have hlist : (path ++ "/" ++ name).toList = path.toList ++ '/' :: name.toList := by simp
  rw [steps,hlist,List.splitOn_append_cons_self,List.map_append,← steps_of_name hname]
  rfl

theorem steps_append_slash (path : String) : steps (path ++ "/") = steps path ++ [""] := by
  have hlist : (path ++ "/").toList = path.toList ++ '/' :: [] := by simp
  rw [steps,hlist,List.splitOn_append_cons_self,List.map_append]
  rfl

theorem steps_join (hname : IsName name) (path : String) : ∃ front, steps (join path name) = front ++ [name] ∧
    (steps path = front ∨ steps path = front ++ [""]) := by
  unfold join
  split_ifs with h
  -- The last step of an empty path, and of one that ends with a slash, is empty; the name takes its place.
  · rcases h with rfl | h
    · exact ⟨[],by rw [String.empty_append,steps_of_name hname,List.nil_append],.inr rfl⟩
    · obtain ⟨front,hfront⟩ := List.getLast?_eq_some_iff.mp h
      have hpath : path = .ofList front ++ "/" := String.toList_inj.mp (by simp [hfront])
      refine ⟨steps (.ofList front),?_,.inr ?_⟩
      · rw [hpath,steps_append hname]
      · rw [hpath,steps_append_slash]
  · exact ⟨steps path,steps_append hname path,.inl rfl⟩

theorem components_join (hname : IsName name) (path : String) :
    components (join path name) = components path ++ [name] := by
  obtain ⟨front,hjoin,hpath⟩ := steps_join hname path
  unfold components
  rcases hpath with hpath | hpath <;> simp [hjoin,hpath,hname.empty,hname.here]

theorem startsWith_join (hname : IsName name) (path : String) :
    (join path name).startsWith "/" = path.startsWith "/" := by
  have hslash : ∀ s : String, s.startsWith "/" = true ↔ s.toList.head? = some '/' := by
    intro s
    rw [String.startsWith_string_iff]
    cases s.toList <;> simp [eq_comm]
  have hhead : name.toList.head? ≠ some '/' := fun h => hname.slash (List.mem_of_mem_head? h)
  rw [Bool.eq_iff_iff,hslash,hslash]
  unfold join
  by_cases hpath : path = ""
  · simp [hpath,hhead]
  · have hne : path.toList ≠ [] := by simpa using hpath
    split_ifs <;> simp only [String.toList_append,List.append_assoc,List.head?_append_of_ne_nil _ hne]

theorem find?_join (hname : IsName name) {root : FileTree} {path : String} {entries : List (String × FileTree)}
    (h : root.find? path = some (.directory entries)) : root.find? (join path name) = entries.lookup name := by
  obtain ⟨front,hjoin,hpath⟩ := steps_join hname path
  unfold find? at h ⊢
  rw [startsWith_join hname]
  split_ifs at h ⊢ with hroot
  have hfront : walk [] root front = some (.directory entries) := by
    rcases hpath with hpath | hpath
    · rwa [hpath] at h
    · rw [hpath,walk_concat_empty] at h
      exact (Option.filter_eq_some_iff.mp h).1
  rw [hjoin,walk_concat hname,hfront]
  rfl

end

theorem lookup_of_mem {entries : List (String × FileTree)} (h : (entries.map Prod.fst).Nodup)
    {entry : String × FileTree} (hmem : entry ∈ entries) : entries.lookup entry.1 = some entry.2 := by
  obtain ⟨front,rest,rfl⟩ := List.append_of_mem hmem
  refine List.lookup_eq_some_iff.mpr ⟨front,rest,rfl,fun other hother => bne_iff_ne.mpr fun heq => ?_⟩
  rw [List.map_append,List.nodup_append] at h
  exact h.2.2 other.1 (List.mem_map_of_mem hother) entry.1 List.mem_cons_self heq.symm

/-! ## The files of a directory -/

/-- The files that an entry of a directory comes to. -/
def entryFiles (entry : String × FileTree) : List (List String × ByteArray) :=
  entry.2.files.map fun f => (entry.1 :: f.1,f.2)

theorem files_directory (entries : List (String × FileTree)) :
    (directory entries).files = entries.flatMap entryFiles := by
  rw [files]
  induction entries with
  | nil => rfl
  | cons entry entries ih => rw [filesIn,ih,List.flatMap_cons,entryFiles]

variable {tree root : FileTree} {entries : List (String × FileTree)}

/-- A file stands at its path, wherever the tree itself stands. -/
theorem find?_of_mem_files (hwf : tree.WellFormed) {path : String} (hfind : root.find? path = some tree)
    {f : List String × ByteArray} (hf : f ∈ tree.files) : root.find? (f.1.foldl join path) = some (.file f.2) ∧
      components (f.1.foldl join path) = components path ++ f.1 := by
  induction tree using induct generalizing path f with
  | file bytes =>
    obtain rfl := List.mem_singleton.mp hf
    exact ⟨hfind,(List.append_nil _).symm⟩
  | directory entries ih =>
    rw [files_directory] at hf
    obtain ⟨entry,hentry,hf⟩ := List.mem_flatMap.mp hf
    obtain ⟨g,hg,rfl⟩ := List.mem_map.mp hf
    obtain ⟨hnames,hnodup⟩ := hwf.here
    have hname := hnames entry hentry
    have hstep : root.find? (join path entry.1) = some entry.2 :=
      (find?_join hname hfind).trans (lookup_of_mem hnodup hentry)
    obtain ⟨hfile,hpath⟩ := ih entry hentry (hwf.entry hentry) hstep hg
    rw [components_join hname,List.append_assoc] at hpath
    exact ⟨hfile,hpath⟩

theorem find?_empty (entries : List (String × FileTree)) :
    (directory entries).find? "" = some (directory entries) := by
  simp [find?,steps,walk]

/-- No two files of a tree have the same path. -/
theorem eq_of_mem_files (hwf : (directory entries).WellFormed) {f g : List String × ByteArray}
    (hf : f ∈ (directory entries).files) (hg : g ∈ (directory entries).files) (h : f.1 = g.1) : f = g := by
  have hfile := (find?_of_mem_files hwf (find?_empty entries) hf).1
  have hfile' := (find?_of_mem_files hwf (find?_empty entries) hg).1
  rw [h,hfile'] at hfile
  have hbytes : g.2 = f.2 := by simpa using hfile
  exact Prod.ext h hbytes.symm

/-! ## Trees that are built -/

section
variable {name path : String} {f : FileTree → FileTree} {names walked : List String}

theorem notMem_of_mem_splitOn (c : Char) (cs : List Char) : ∀ part ∈ cs.splitOn c, c ∉ part := by
  induction cs with
  | nil => simp [List.splitOn_nil]
  | cons d cs ih =>
    rw [List.splitOn_cons_eq_if_modifyHead]
    by_cases hd : d = c
    · simpa [hd] using ih
    · obtain ⟨first,rest,hsplit⟩ := List.exists_cons_of_ne_nil (List.splitOn_ne_nil c cs)
      rw [hsplit] at ih ⊢
      simpa [hd,Ne.symm hd] using ih

theorem isName_of_mem_components (h : name ∈ components path) (habove : name ≠ "..") : IsName name := by
  obtain ⟨hstep,hkept⟩ := List.mem_filter.mp h
  obtain ⟨part,hpart,rfl⟩ := List.mem_map.mp hstep
  simp only [Bool.and_eq_true,bne_iff_ne] at hkept
  exact ⟨by simpa using notMem_of_mem_splitOn '/' path.toList part hpart,hkept.1,hkept.2,habove⟩

theorem mem_putEntry {entry : String × FileTree} (h : entry ∈ putEntry name tree entries) :
    entry = (name,tree) ∨ entry ∈ entries := by
  induction entries with
  | nil => exact .inl (List.mem_singleton.mp h)
  | cons other entries ih =>
    obtain ⟨key,old⟩ := other
    rw [putEntry] at h
    split_ifs at h with hkey
    · exact (List.mem_cons.mp h).imp (fun h => hkey ▸ h) (List.mem_cons_of_mem _)
    · rcases List.mem_cons.mp h with rfl | h
      · exact .inr List.mem_cons_self
      · exact (ih h).imp_right (List.mem_cons_of_mem _)

theorem nodup_putEntry (h : (entries.map Prod.fst).Nodup) :
    ((putEntry name tree entries).map Prod.fst).Nodup := by
  induction entries with
  | nil => exact List.nodup_singleton _
  | cons other entries ih =>
    obtain ⟨key,old⟩ := other
    obtain ⟨hnew,h⟩ := List.nodup_cons.mp h
    rw [putEntry]
    split_ifs with hkey
    · exact List.nodup_cons.mpr ⟨hnew,h⟩
    · refine List.nodup_cons.mpr ⟨fun hmem => ?_,ih h⟩
      obtain ⟨entry,hentry,hname⟩ := List.mem_map.mp hmem
      rcases mem_putEntry hentry with rfl | hentry
      · exact hkey hname.symm
      · exact hnew (List.mem_map.mpr ⟨entry,hentry,hname⟩)

theorem wellFormed_empty : empty.WellFormed :=
  .directory ⟨List.forall_mem_nil _,List.nodup_nil⟩ (List.forall_mem_nil _)

theorem WellFormed.asDirectory (h : tree.WellFormed) : tree.asDirectory.WellFormed := by
  cases tree with
  | file bytes => exact wellFormed_empty
  | directory entries => exact h

theorem WellFormed.putEntry (h : (directory tree.entries).WellFormed) (hname : IsName name) {part : FileTree}
    (hpart : part.WellFormed) : (directory (putEntry name part tree.entries)).WellFormed := by
  refine .directory ⟨fun entry hentry => ?_,nodup_putEntry h.here.2⟩ fun entry hentry => ?_
  · rcases mem_putEntry hentry with rfl | hentry
    · exact hname
    · exact h.here.1 entry hentry
  · rcases mem_putEntry hentry with rfl | hentry
    · exact hpart
    · exact h.entry hentry

theorem WellFormed.change (hf : ∀ tree, tree.WellFormed → (f tree).WellFormed)
    (hnames : ∀ name ∈ names, IsName name) (h : tree.WellFormed) : (change f names tree).WellFormed := by
  induction names generalizing tree with
  | nil => exact hf tree h
  | cons name names ih =>
    obtain ⟨hname,hnames⟩ := List.forall_mem_cons.mp hnames
    have hdir : (directory tree.entries).WellFormed := by
      cases tree with
      | file bytes => exact wellFormed_empty
      | directory entries => exact h
    refine WellFormed.putEntry hdir hname (ih hnames ?_)
    cases hold : tree.entries.lookup name with
    | none => exact wellFormed_empty
    | some old =>
      obtain ⟨front,rest,hsplit,-⟩ := List.lookup_eq_some_iff.mp hold
      have hmem : (name,old) ∈ tree.entries := by simp [hsplit]
      exact hdir.entry hmem

theorem WellFormed.changeAlong (hf : ∀ tree, tree.WellFormed → (f tree).WellFormed)
    (hwalked : ∀ name ∈ walked, IsName name) (hnames : ∀ name ∈ names, name ≠ ".." → IsName name)
    (h : tree.WellFormed) : (changeAlong f walked tree names).WellFormed := by
  induction names generalizing walked tree with
  | nil => exact h.change hf fun name hname => hwalked name (List.mem_reverse.mp hname)
  | cons name names ih =>
    obtain ⟨hname,hnames⟩ := List.forall_mem_cons.mp hnames
    rw [FileTree.changeAlong]
    split_ifs with habove
    · refine ih (fun name hname => hwalked name (List.mem_of_mem_tail hname)) hnames ?_
      exact h.change (fun _ => WellFormed.asDirectory) fun name hname => hwalked name (List.mem_reverse.mp hname)
    · exact ih (List.forall_mem_cons.mpr ⟨hname habove,hwalked⟩) hnames h

theorem WellFormed.addFile (h : tree.WellFormed) (path : String) (bytes : ByteArray) :
    (tree.addFile path bytes).WellFormed :=
  h.changeAlong (fun _ _ => .file bytes) (List.forall_mem_nil _) fun _ => isName_of_mem_components

end

end Fireworks.FileTree
