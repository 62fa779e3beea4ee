import Mathlib.Data.List.Perm.Basic
import Fireworks.Proofs.FileTree
import Fireworks.Show.Loader

/-! # Loading a directory

A directory is taken over one entry after the other, and the directories in it as wholes. What comes out is
one list of files: all that hold shows, in the order of their paths.
-/
namespace Fireworks

namespace FileTree

/-- No directory has the name of a file that holds a show. -/
def Unmistaken (tree : FileTree) : Prop := tree.Everywhere fun entries =>
  ∀ entry ∈ entries, entry.2.isDirectory = true → extension? entry.1 ≠ some Load.showExtension

/-- Whether what stands at the end of a path holds a show. -/
def holdsShow (names : List String) : Bool :=
  names.getLast?.bind extension? = some Load.showExtension

def shows (tree : FileTree) : List (List String × ByteArray) := tree.files.filter fun f => holdsShow f.1

/-- Paths in their order: the first names in which they differ decide, and what leads on comes later. -/
def notAfter : List String → List String → Bool
  | [], _ => true
  | _ :: _, [] => false
  | a :: as, b :: bs => a < b || a == b && notAfter as bs

/-! ## The order of paths -/

theorem notAfter_cons_cons {a b : String} {as bs : List String} :
    notAfter (a :: as) (b :: bs) = true ↔ a < b ∨ a = b ∧ notAfter as bs = true := by
  simp [notAfter]

theorem notAfter_append (front as bs : List String) :
    notAfter (front ++ as) (front ++ bs) = notAfter as bs := by
  induction front with
  | nil => rfl
  | cons name front ih => simpa [notAfter] using ih

theorem notAfter_total (as bs : List String) : (notAfter as bs || notAfter bs as) = true := by
  rw [Bool.or_eq_true]
  induction as generalizing bs with
  | nil => exact .inl rfl
  | cons a as ih =>
    cases bs with
    | nil => exact .inr rfl
    | cons b bs =>
      rw [notAfter_cons_cons,notAfter_cons_cons]
      rcases Std.lt_trichotomy a b with h | rfl | h
      · exact .inl (.inl h)
      · exact (ih bs).imp (fun h => .inr ⟨rfl,h⟩) fun h => .inr ⟨rfl,h⟩
      · exact .inr (.inl h)

theorem notAfter_trans (as bs cs : List String) (h : notAfter as bs = true) (h' : notAfter bs cs = true) :
    notAfter as cs = true := by
  induction as generalizing bs cs with
  | nil => rfl
  | cons a as ih =>
    cases bs with
    | nil => exact absurd h Bool.false_ne_true
    | cons b bs =>
      cases cs with
      | nil => exact absurd h' Bool.false_ne_true
      | cons c cs =>
        rw [notAfter_cons_cons] at h h' ⊢
        rcases h with h | ⟨rfl,h⟩
        · rcases h' with h' | ⟨rfl,-⟩
          · exact .inl (String.lt_trans h h')
          · exact .inl h
        · exact h'.imp_right fun ⟨heq,h'⟩ => ⟨heq,ih bs cs h h'⟩

theorem notAfter_antisymm {as bs : List String} (h : notAfter as bs = true) (h' : notAfter bs as = true) :
    as = bs := by
  induction as generalizing bs with
  | nil =>
    cases bs with
    | nil => rfl
    | cons => exact absurd h' Bool.false_ne_true
  | cons a as ih =>
    cases bs with
    | nil => exact absurd h Bool.false_ne_true
    | cons b bs =>
      rw [notAfter_cons_cons] at h h'
      rcases h with h | ⟨rfl,h⟩
      · exact absurd h (h'.elim String.lt_asymm fun ⟨heq,_⟩ => heq ▸ String.lt_irrefl _)
      · exact congrArg (a :: ·) (ih h (h'.resolve_left (String.lt_irrefl _)).2)

/-- Sorts by paths. -/
def inPathOrder (fs : List (List String × ByteArray)) : List (List String × ByteArray) :=
  fs.mergeSort fun f g => notAfter f.1 g.1

theorem pairwise_inPathOrder (fs : List (List String × ByteArray)) :
    (inPathOrder fs).Pairwise fun f g => notAfter f.1 g.1 = true :=
  List.pairwise_mergeSort (fun f g h => notAfter_trans f.1 g.1 h.1) (fun f g => notAfter_total f.1 g.1) fs

theorem perm_inPathOrder (fs : List (List String × ByteArray)) : (inPathOrder fs).Perm fs :=
  List.mergeSort_perm fs _

/-! ## The show files of a directory -/

variable {entries : List (String × FileTree)}

/-- The show files that an entry of a directory comes to. -/
def entryShows (entry : String × FileTree) : List (List String × ByteArray) :=
  (entryFiles entry).filter fun f => holdsShow f.1

theorem shows_directory (entries : List (String × FileTree)) :
    (directory entries).shows = entries.flatMap entryShows := by
  rw [shows,files_directory,List.filter_flatMap]
  rfl

/-- There is one order of the show files of a directory by their paths. -/
theorem eq_inPathOrder (hwf : (directory entries).WellFormed) {fs : List (List String × ByteArray)}
    (hsorted : fs.Pairwise fun f g => notAfter f.1 g.1 = true) (hperm : fs.Perm (directory entries).shows) :
    fs = inPathOrder (directory entries).shows := by
  have hordered := perm_inPathOrder (directory entries).shows
  refine List.Perm.eq_of_pairwise (fun f g hf hg h h' => ?_) hsorted (pairwise_inPathOrder _)
    (hperm.trans hordered.symm)
  have hf := (List.mem_filter.mp (hperm.mem_iff.mp hf)).1
  have hg := (List.mem_filter.mp (hordered.mem_iff.mp hg)).1
  exact eq_of_mem_files hwf hf hg (notAfter_antisymm h h')

theorem pairwise_entries (hnodup : (entries.map Prod.fst).Nodup) :
    (entries.mergeSort fun a b => a.1 ≤ b.1).Pairwise fun a b => a.1 < b.1 := by
  have hsorted : (entries.mergeSort fun a b => a.1 ≤ b.1).Pairwise fun a b => decide (a.1 ≤ b.1) = true :=
    List.pairwise_mergeSort
      (fun a b c h h' => by simpa using String.le_trans (of_decide_eq_true h) (of_decide_eq_true h'))
      (fun a b => by simpa using String.le_total a.1 b.1) entries
  have hdistinct : (entries.mergeSort fun a b => a.1 ≤ b.1).Pairwise fun a b => a.1 ≠ b.1 :=
    List.pairwise_map.mp (((List.mergeSort_perm entries _).map Prod.fst).nodup_iff.mpr hnodup)
  refine (hsorted.and hdistinct).imp fun ⟨hle,hne⟩ => ?_
  by_contra hlt
  exact hne (String.le_antisymm (of_decide_eq_true hle) (String.not_lt.mp hlt))

/-- Entry by entry in the order of their names, the files come in the order of their paths. -/
theorem flatMap_inPathOrder (hwf : (directory entries).WellFormed) :
    ((entries.mergeSort fun a b => a.1 ≤ b.1).flatMap fun entry => inPathOrder (entryShows entry)) =
      inPathOrder (directory entries).shows := by
  -- Between two entries their names decide; within one, its name is common to all paths.
  refine eq_inPathOrder hwf (List.pairwise_flatMap.mpr ⟨fun entry _ => pairwise_inPathOrder _,?_⟩) ?_
  · refine (pairwise_entries hwf.here.2).imp fun hlt f hf g hg => ?_
    obtain ⟨f,-,rfl⟩ := List.mem_map.mp (List.mem_filter.mp ((perm_inPathOrder _).mem_iff.mp hf)).1
    obtain ⟨g,-,rfl⟩ := List.mem_map.mp (List.mem_filter.mp ((perm_inPathOrder _).mem_iff.mp hg)).1
    exact notAfter_cons_cons.mpr (.inl hlt)
  · rw [shows_directory]
    exact (List.mergeSort_perm entries _).flatMap fun entry _ => perm_inPathOrder _

theorem holdsShow_cons (name : String) {names : List String} (hne : names ≠ []) :
    holdsShow (name :: names) = holdsShow names := by
  cases names with
  | nil => exact absurd rfl hne
  | cons => rw [holdsShow,List.getLast?_cons_cons,holdsShow]

theorem entryShows_directory (name : String) (entries : List (String × FileTree)) :
    entryShows (name,directory entries) = (directory entries).shows.map fun f => (name :: f.1,f.2) := by
  rw [entryShows,entryFiles,List.filter_map,shows]
  congr 1
  refine List.filter_congr fun f hf => holdsShow_cons name ?_
  rw [files_directory] at hf
  obtain ⟨entry,-,hf⟩ := List.mem_flatMap.mp hf
  obtain ⟨g,-,rfl⟩ := List.mem_map.mp hf
  exact List.cons_ne_nil _ _

theorem inPathOrder_map (name : String) (fs : List (List String × ByteArray)) :
    inPathOrder (fs.map fun f => (name :: f.1,f.2)) = (inPathOrder fs).map fun f => (name :: f.1,f.2) :=
  (List.map_mergeSort fun f _ g _ => (notAfter_append [name] f.1 g.1).symm).symm

theorem entryShows_file (name : String) (bytes : ByteArray) :
    entryShows (name,file bytes) =
      if extension? name = some Load.showExtension then [([name],bytes)] else [] := by
  have hholds : holdsShow [name] = decide (extension? name = some Load.showExtension) := rfl
  rw [entryShows,entryFiles,files,List.map_singleton,List.filter_singleton,hholds]
  by_cases h : extension? name = some Load.showExtension <;> simp [h]

end FileTree

namespace Load
open FileTree

section
variable {ν α β : Type}

theorem forM_map (f : β → Load ν Unit) (g : α → β) (xs : List α) :
    (xs.map g).forM f = xs.forM fun x => f (g x) := List.forM_map

theorem forM_congr {f g : α → Load ν Unit} {xs : List α} (h : ∀ x ∈ xs, f x = g x) :
    xs.forM f = xs.forM g := by
  induction xs with
  | nil => rfl
  | cons x xs ih =>
    obtain ⟨hx,hxs⟩ := List.forall_mem_cons.mp h
    simp only [List.forM_eq_forM,List.forM_cons] at ih ⊢
    rw [hx,ih hxs]

theorem forM_flatMap (f : β → Load ν Unit) (g : α → List β) (xs : List α) :
    (xs.flatMap g).forM f = xs.forM fun x => (g x).forM f := by
  induction xs with
  | nil => rfl
  | cons x xs ih =>
    simp only [List.forM_eq_forM,List.flatMap_cons,List.forM_append,List.forM_cons] at ih ⊢
    rw [ih]

end

def entry (entry : String × FileTree) : Load Float Unit :=
  if extension? entry.1 = some showExtension then file entry.2
  else if entry.2.isDirectory then directory entry.2
  else pure ()

theorem entryLoads_eq_map (entries : List (String × FileTree)) :
    entryLoads entries = entries.map fun e => (e.1,entry e) := by
  induction entries with
  | nil => rfl
  | cons e entries ih => rw [entryLoads,ih,List.map_cons,entry]

theorem directory_eq_forM (entries : List (String × FileTree)) :
    directory (.directory entries) = (entries.mergeSort fun a b => a.1 ≤ b.1).forM entry := by
  have hsort : ((entries.map fun e => (e.1,entry e)).mergeSort fun a b => a.1 ≤ b.1) =
      (entries.mergeSort fun a b => a.1 ≤ b.1).map fun e => (e.1,entry e) :=
    (List.map_mergeSort (f := fun e => (e.1,entry e)) fun _ _ _ _ => rfl).symm
  rw [directory,entryLoads_eq_map,inOrder,hsort,forM_map]

/-- Takes over show files in the order of their paths. -/
def ordered (fs : List (List String × ByteArray)) : Load Float Unit :=
  (FileTree.inPathOrder fs).forM fun f => file (.file f.2)

/-- A directory is taken over as its show files are, in the order of their paths. -/
theorem directory_eq_ordered {tree : FileTree} (hwf : tree.WellFormed) (hun : tree.Unmistaken)
    (hdir : tree.isDirectory = true) : directory tree = ordered tree.shows := by
  induction tree using FileTree.induct with
  | file bytes => exact absurd hdir Bool.false_ne_true
  | directory entries ih =>
    have hentry : ∀ e ∈ entries, entry e = ordered (entryShows e) := by
      rintro ⟨name,tree⟩ he
      cases tree with
      | file bytes =>
        rw [entry,entryShows_file]
        split_ifs with hshow
        · simp [ordered,FileTree.inPathOrder]
        · exact absurd ‹_› Bool.false_ne_true
        · simp [ordered,FileTree.inPathOrder]
      | directory entries =>
        have hname : ¬extension? name = some showExtension := hun.here _ he rfl
        have hload : entry (name,.directory entries) = directory (.directory entries) := if_neg hname
        have hsub := ih (name,.directory entries) he (hwf.entry he) (hun.entry he) rfl
        rw [hload,hsub,entryShows_directory,ordered,ordered,inPathOrder_map,forM_map]
    have hmem : ∀ e ∈ entries.mergeSort (fun a b => a.1 ≤ b.1), entry e = ordered (entryShows e) :=
      fun e he => hentry e (List.mem_mergeSort.mp he)
    rw [directory_eq_forM,forM_congr hmem,ordered,← flatMap_inPathOrder hwf,forM_flatMap]
    rfl

theorem directoryAt_eq_ordered {root tree : FileTree} {path : String} (hfind : root.find? path = some tree)
    (hdir : tree.isDirectory = true) (hwf : tree.WellFormed) (hun : tree.Unmistaken) :
    directoryAt root path = ordered tree.shows := by
  rw [directoryAt,hfind]
  exact directory_eq_ordered hwf hun hdir

/-- Loading a directory comes to loading all files below it that hold shows, one after the other and in the
order of their paths, up to the first that fails. Whatever else there is in the directory or around it makes
no difference. -/
theorem directoryAt_eq_forM {root tree : FileTree} {path : String} (hfind : root.find? path = some tree)
    (hdir : tree.isDirectory = true) (hwf : tree.WellFormed) (hun : tree.Unmistaken) :
    directoryAt root path = ((tree.shows.map fun f => f.1.foldl join path).mergeSort
        fun p q => notAfter (components p) (components q)).forM (fileAt root) ∧
      ∀ root' path' tree', FileTree.find? root' path' = some tree' → tree'.isDirectory = true →
        tree'.WellFormed → tree'.Unmistaken → tree'.shows.Perm tree.shows →
        directoryAt root' path' = directoryAt root path := by
  have hload : directoryAt root path = ordered tree.shows := directoryAt_eq_ordered hfind hdir hwf hun
  have hfull : ∀ f ∈ tree.shows, root.find? (f.1.foldl join path) = some (.file f.2) ∧
      components (f.1.foldl join path) = components path ++ f.1 := fun f hf =>
    find?_of_mem_files hwf hfind (List.mem_filter.mp hf).1
  refine ⟨?_,fun root' path' tree' hfind' hdir' hwf' hun' hperm => ?_⟩
  · have hsort : ((tree.shows.map fun f => f.1.foldl join path).mergeSort
          fun p q => notAfter (components p) (components q)) =
        (FileTree.inPathOrder tree.shows).map fun f => f.1.foldl join path := by
      refine (List.map_mergeSort fun f hf g hg => ?_).symm
      rw [(hfull f hf).2,(hfull g hg).2,notAfter_append]
    rw [hload,hsort,ordered,forM_map]
    refine forM_congr fun f hf => ?_
    have hf := (hfull f ((perm_inPathOrder _).mem_iff.mp hf)).1
    rw [fileAt,hf]
  · rw [hload,directoryAt_eq_ordered hfind' hdir' hwf' hun',ordered,ordered]
    cases tree with
    | file bytes => exact absurd hdir Bool.false_ne_true
    | directory entries =>
      rw [eq_inPathOrder hwf (pairwise_inPathOrder _) ((perm_inPathOrder _).trans hperm)]

end Load

namespace Plain

/-- Shows in a file, in a directory whose name the name of the file goes on from, and in a directory between
the two, beside a file of another kind. -/
def library : FileTree :=
  (((FileTree.empty.addFile "a.ron" .empty).addFile "a-b/y.ron" .empty).addFile "a/x.ron" .empty).addFile
    "a/readme.txt" .empty

/-- The same shows, put down in another order and alone. -/
def copies : FileTree :=
  ((FileTree.empty.addFile "a/x.ron" .empty).addFile "a-b/y.ron" .empty).addFile "a.ron" .empty

example : library.shows.map Prod.fst = [["a.ron"],["a-b","y.ron"],["a","x.ron"]] := by decide +kernel

example : ([["a","x.ron"],["a-b","y.ron"],["a.ron"]] : List (List String)).Pairwise
    fun p q => FileTree.notAfter p q = true := by decide

theorem library_wellFormed : library.WellFormed :=
  (((FileTree.wellFormed_empty.addFile _ _).addFile _ _).addFile _ _).addFile _ _

theorem copies_wellFormed : copies.WellFormed :=
  ((FileTree.wellFormed_empty.addFile _ _).addFile _ _).addFile _ _

theorem unmistaken_files (names : List String) :
    (FileTree.directory (names.map fun name => (name,.file .empty))).Unmistaken := by
  refine .directory (fun entry hentry hdir => ?_) fun entry hentry => ?_
  · obtain ⟨name,-,rfl⟩ := List.mem_map.mp hentry
    exact absurd hdir Bool.false_ne_true
  · obtain ⟨name,-,rfl⟩ := List.mem_map.mp hentry
    exact .file _

theorem library_unmistaken : library.Unmistaken := by
  change FileTree.Unmistaken (.directory [("a.ron",.file .empty),("a-b",.directory [("y.ron",.file .empty)]),
    ("a",.directory [("x.ron",.file .empty),("readme.txt",.file .empty)])])
  refine .directory (by decide) ?_
  simp only [List.forall_mem_cons]
  exact ⟨.file _,unmistaken_files ["y.ron"],unmistaken_files ["x.ron","readme.txt"],List.forall_mem_nil _⟩

theorem copies_unmistaken : copies.Unmistaken := by
  change FileTree.Unmistaken (.directory [("a",.directory [("x.ron",.file .empty)]),
    ("a-b",.directory [("y.ron",.file .empty)]),("a.ron",.file .empty)])
  refine .directory (by decide) ?_
  simp only [List.forall_mem_cons]
  exact ⟨unmistaken_files ["x.ron"],unmistaken_files ["y.ron"],.file _,List.forall_mem_nil _⟩

theorem library_directoryAt :
    library.find? "" = some library ∧ library.isDirectory = true ∧ library.WellFormed ∧ library.Unmistaken ∧
      Load.directoryAt library "" = ((library.shows.map fun f => f.1.foldl FileTree.join "").mergeSort
        fun p q => FileTree.notAfter (FileTree.components p) (FileTree.components q)).forM (Load.fileAt library) ∧
      copies.shows.Perm library.shows ∧ Load.directoryAt copies "" = Load.directoryAt library "" := by
  have hfind : library.find? "" = some library := FileTree.find?_empty _
  have hperm : copies.shows.Perm library.shows := by decide +kernel
  obtain ⟨hload,hsame⟩ := Load.directoryAt_eq_forM hfind rfl library_wellFormed library_unmistaken
  exact ⟨hfind,rfl,library_wellFormed,library_unmistaken,hload,hperm,
    hsame copies "" copies (FileTree.find?_empty _) rfl copies_wellFormed copies_unmistaken hperm⟩

end Plain
end Fireworks
