import Mathlib.Data.Finset.Order
import Mathlib.Data.Finset.Sort
import Mathlib.Data.List.Sort
import Mathlib.Data.String.Basic
import ShadeGraph.Proofs.Files.Tree

/-!
# Walking a file tree

The files at or below a path are found by sorting the locations of all files. This is a depth first walk: a directory
is listed by listing what stands in it in the order of the names. Files that are deleted are left out of the walk, and
the others keep their places in it.
-/

namespace ShadeGraph.FileTree

/-- The files at or below a path in the order of a depth first walk. -/
inductive Lists (t : FileTree) : Location → String → List String → Prop
  | file {location : Location} {path : String} {entry : FileEntry} (hentry : t.lookup? location = some entry)
    (hfile : entry ≠ .directory) : Lists t location path [path]
  /-- A directory whose path is too long cannot be opened. -/
  | closed {location : Location} {path : String} (hentry : t.lookup? location = some .directory)
    (hlong : isLongPath path = true) : Lists t location path []
  /-- What stands in a directory is visited in the order of the names. -/
  | directory {location : Location} {path : String} {names : List String} {files : String → List String}
    (hentry : t.lookup? location = some .directory) (hshort : isLongPath path = false)
    (hsorted : names.Pairwise (· < ·))
    (hnames : ∀ name, name ∈ names ↔ ∃ entry, (location ++ [name], entry) ∈ t.entries)
    (hfiles : ∀ name ∈ names, Lists t (location ++ [name]) (Path.join path name) (files name)) :
    Lists t location path (names.flatMap files)

variable {t : FileTree} {location : Location} {path : String} {entry : FileEntry} {gone : Location → Bool}

/-! ## The order of locations -/

theorem nameLe_iff : ∀ a b : List Char, nameLe a b = true ↔ ¬ b < a
  | [], b => by simp [nameLe]
  | a :: as, [] => by simp [nameLe]
  | a :: as, b :: bs => by
    rw [nameLe, List.cons_lt_cons_iff, Bool.or_eq_true, Bool.and_eq_true, nameLe_iff as bs]
    rcases lt_trichotomy a b with hlt | rfl | hlt
    · simp [hlt, hlt.ne', hlt.not_gt]
    · simp
    · simp [hlt, hlt.ne', hlt.not_gt]

theorem locationLe_iff : ∀ a b : Location, locationLe a b = true ↔ ¬ b < a
  | [], b => by simp [locationLe]
  | a :: as, [] => by simp [locationLe]
  | a :: as, b :: bs => by
    rw [locationLe, List.cons_lt_cons_iff]
    by_cases h : a = b
    · rw [if_pos h, locationLe_iff as bs]
      simp [h]
    · rw [if_neg h, nameLe_iff, ← String.lt_iff_toList_lt]
      simp [Ne.symm h]

/-! ## Files below a location -/

theorem mem_filesBelow {names : List String} : names ∈ t.filesBelow location ↔
    names.all leadsDown = true ∧ ∃ entry, (location ++ names, entry) ∈ t.entries ∧ entry ≠ .directory := by
  rw [filesBelow, List.mem_mergeSort, List.mem_filter, and_comm]
  refine and_congr_right fun _ => ?_
  rw [List.mem_map]
  constructor
  · rintro ⟨⟨l, entry⟩, he, rfl⟩
    rw [List.mem_filter, Bool.and_eq_true, List.isPrefixOf_iff_prefix] at he
    obtain ⟨hmem, ⟨names, rfl⟩, hfile⟩ := he
    exact ⟨entry, by simpa using hmem, by simpa using hfile⟩
  · rintro ⟨entry, hmem, hfile⟩
    refine ⟨(location ++ names, entry), ?_, by simp⟩
    rw [List.mem_filter]
    exact ⟨hmem, by simp [hfile]⟩

theorem WellFormed.nodup_filesBelow (h : t.WellFormed) (location : Location) : (t.filesBelow location).Nodup := by
  rw [filesBelow, (List.mergeSort_perm _ _).nodup_iff]
  refine List.Nodup.filter _ (List.Nodup.map_on ?_ ((List.Nodup.of_map _ h.once).filter _))
  -- What two entries have in front is the same, so they differ in the rest.
  intro e he e' he' heq
  rw [List.mem_filter, Bool.and_eq_true, List.isPrefixOf_iff_prefix] at he he'
  obtain ⟨⟨names, hnames⟩, ⟨names', hnames'⟩⟩ := he.2.1, he'.2.1
  rw [← hnames, ← hnames', List.drop_left, List.drop_left] at heq
  exact List.inj_on_of_nodup_map h.once he.1 he'.1 (by rw [← hnames, ← hnames', heq])

theorem WellFormed.sorted_filesBelow (h : t.WellFormed) (location : Location) :
    (t.filesBelow location).Pairwise (· < ·) := by
  have hle : (t.filesBelow location).Pairwise (· ≤ ·) := by
    refine (List.pairwise_mergeSort ?_ ?_ _).imp fun {a b} hab => not_lt.mp ((locationLe_iff a b).mp hab)
    · intro a b c hab hbc
      rw [locationLe_iff, not_lt] at hab hbc ⊢
      exact hab.trans hbc
    · intro a b
      rw [Bool.or_eq_true, locationLe_iff, locationLe_iff, not_lt, not_lt]
      exact le_total a b
  exact hle.imp₂ (fun _ _ hab hne => lt_of_le_of_ne hab hne) (h.nodup_filesBelow location)

theorem WellFormed.filesBelow_file (h : t.WellFormed) (hmem : (location, entry) ∈ t.entries)
    (hfile : entry ≠ .directory) : t.filesBelow location = [[]] := by
  refine (h.sorted_filesBelow location).eq_of_mem_iff (List.pairwise_singleton _ _) fun names => ?_
  rw [mem_filesBelow, List.mem_singleton]
  constructor
  · rintro ⟨-, other, hother, -⟩
    by_contra hnames
    have hdirectory := h.directory_of_mem hnames hother
    rw [h.lookup?_of_mem hmem] at hdirectory
    exact hfile (Option.some.inj hdirectory)
  · rintro rfl
    exact ⟨rfl, entry, by simpa using hmem, hfile⟩

def namesIn (t : FileTree) (location : Location) : List String :=
  (t.entries.filterMap fun e => if e.1.dropLast = location then e.1.getLast? else none).toFinset.sort (· ≤ ·)

theorem mem_namesIn {name : String} : name ∈ t.namesIn location ↔ ∃ entry, (location ++ [name], entry) ∈ t.entries := by
  rw [namesIn, Finset.mem_sort, List.mem_toFinset, List.mem_filterMap]
  constructor
  · rintro ⟨⟨l, entry⟩, hmem, hname⟩
    split at hname
    · rename_i hlast
      rw [List.getLast?_eq_some_iff] at hname
      obtain ⟨front, rfl⟩ := hname
      rw [List.dropLast_concat] at hlast
      exact ⟨entry, hlast ▸ hmem⟩
    · cases hname
  · rintro ⟨entry, hmem⟩
    exact ⟨_, hmem, by simp⟩

theorem WellFormed.filesBelow_directory (h : t.WellFormed) (hdirectory : t.lookup? location = some .directory) :
    t.filesBelow location =
      (t.namesIn location).flatMap fun name => (t.filesBelow (location ++ [name])).map (name :: ·) := by
  have hsorted : ((t.namesIn location).flatMap fun name =>
      (t.filesBelow (location ++ [name])).map (name :: ·)).Pairwise (· < ·) := by
    rw [List.pairwise_flatMap]
    constructor
    · intro name _
      rw [List.pairwise_map]
      exact (h.sorted_filesBelow _).imp fun hlt => List.cons_lt_cons_iff.mpr (Or.inr ⟨rfl, hlt⟩)
    · refine (Finset.sortedLT_sort _).pairwise.imp fun {a b} hab => ?_
      intro names hnames names' hnames'
      obtain ⟨rest, -, rfl⟩ := List.mem_map.mp hnames
      obtain ⟨rest', -, rfl⟩ := List.mem_map.mp hnames'
      exact List.cons_lt_cons_iff.mpr (Or.inl hab)
  refine (h.sorted_filesBelow location).eq_of_mem_iff hsorted fun names => ?_
  simp only [List.mem_flatMap, List.mem_map]
  constructor
  · intro hnames
    obtain ⟨hdown, entry, hmem, hfile⟩ := mem_filesBelow.mp hnames
    cases names with
    | nil =>
      rw [List.append_nil] at hmem
      rw [h.lookup?_of_mem hmem] at hdirectory
      exact absurd (Option.some.inj hdirectory) hfile
    | cons name rest =>
      rw [List.all_cons, Bool.and_eq_true] at hdown
      exact ⟨name, mem_namesIn.mpr (h.isName_of_mem hdown.1 hmem).2, rest,
        mem_filesBelow.mpr ⟨hdown.2, entry, by simpa using hmem, hfile⟩, rfl⟩
  · rintro ⟨name, hname, rest, hrest, rfl⟩
    obtain ⟨child, hchild⟩ := mem_namesIn.mp hname
    obtain ⟨hdown, entry, hmem, hfile⟩ := mem_filesBelow.mp hrest
    have hname := (h.isName_of_child hchild).leadsDown
    exact mem_filesBelow.mpr ⟨by simp [hname, hdown], entry, by simpa using hmem, hfile⟩

/-! ## The walk -/

def pathsBelow (t : FileTree) (location : Location) (path : String) : List String :=
  ((t.filesBelow location).filter (canDescend path)).map fun names => names.foldl Path.join path

theorem walk_of_resolve (h : t.resolve path = .ok (location, entry)) : t.walk path = t.pathsBelow location path := by
  rw [walk, h]
  rfl

theorem WellFormed.pathsBelow_file (h : t.WellFormed) (hmem : (location, entry) ∈ t.entries)
    (hfile : entry ≠ .directory) (path : String) : t.pathsBelow location path = [path] := by
  rw [pathsBelow, h.filesBelow_file hmem hfile]
  rfl

theorem WellFormed.pathsBelow_directory (h : t.WellFormed) (hdirectory : t.lookup? location = some .directory)
    (path : String) : t.pathsBelow location path = if isLongPath path then [] else
      (t.namesIn location).flatMap fun name => t.pathsBelow (location ++ [name]) (Path.join path name) := by
  rw [pathsBelow, h.filesBelow_directory hdirectory, List.filter_flatMap, List.map_flatMap]
  split
  · rename_i hlong
    refine List.flatMap_eq_nil_iff.mpr fun name _ => ?_
    simp [List.filter_map, canDescend, hlong, Function.comp_def]
  · rename_i hshort
    refine List.flatMap_congr fun name _ => ?_
    simp [pathsBelow, List.filter_map, canDescend, hshort, Function.comp_def]

theorem WellFormed.lists_of_children (h : t.WellFormed) (hentry : t.lookup? location = some entry)
    (hchildren : ∀ name child, (location ++ [name], child) ∈ t.entries →
      Lists t (location ++ [name]) (Path.join path name) (t.pathsBelow (location ++ [name]) (Path.join path name))) :
    Lists t location path (t.pathsBelow location path) := by
  by_cases hdirectory : entry = .directory
  · subst hdirectory
    rw [h.pathsBelow_directory hentry]
    split
    · rename_i hlong
      exact .closed hentry hlong
    · rename_i hshort
      refine .directory hentry (by simpa using hshort) (Finset.sortedLT_sort _).pairwise (fun _ => mem_namesIn) ?_
      intro name hname
      obtain ⟨child, hchild⟩ := mem_namesIn.mp hname
      exact hchildren name child hchild
  · rcases mem_or_above hentry with hmem | ⟨hcontra, -⟩
    · rw [h.pathsBelow_file hmem hdirectory]
      exact .file hentry hdirectory
    · exact absurd hcontra hdirectory

theorem WellFormed.lists_pathsBelow (h : t.WellFormed) {n : Nat} (hentry : t.lookup? location = some entry)
    (hdepth : ∀ e ∈ t.entries, e.1.length ≤ location.length + n) (path : String) :
    Lists t location path (t.pathsBelow location path) := by
  -- The induction is on how far the entries reach below the location.
  induction n generalizing location path entry with
  | zero => exact h.lists_of_children hentry fun name child hchild => absurd (hdepth _ hchild) (by simp)
  | succ n ih =>
    refine h.lists_of_children hentry fun name child hchild => ih (h.lookup?_of_mem hchild) (fun e he => ?_) _
    have := hdepth e he
    simp only [List.length_append, List.length_singleton]
    omega

/-- Walking a path lists its files depth first. -/
theorem WellFormed.lists_walk (h : t.WellFormed) (hresolve : t.resolve path = .ok (location, entry)) :
    Lists t location path (t.walk path) := by
  obtain ⟨n, hn⟩ := (t.entries.map fun e => e.1.length).toFinset.exists_le
  have hdepth : ∀ e ∈ t.entries, e.1.length ≤ location.length + n := by
    intro e he
    have := hn e.1.length (List.mem_toFinset.mpr (List.mem_map.mpr ⟨e, he, rfl⟩))
    omega
  rw [walk_of_resolve hresolve]
  exact h.lists_pathsBelow (resolve_eq_ok_iff.mp hresolve).2.2 hdepth path

/-! ## Deleted files -/

theorem WellFormed.filesBelow_without (h : t.WellFormed) (hfiles : t.FilesOnly gone) (location : Location) :
    (t.without gone).filesBelow location =
      (t.filesBelow location).filter fun names => !gone (location ++ names) := by
  refine ((h.without hfiles).sorted_filesBelow location).eq_of_mem_iff ((h.sorted_filesBelow location).filter _) ?_
  intro names
  rw [mem_filesBelow, List.mem_filter, mem_filesBelow]
  simp only [FileTree.without, List.mem_filter]
  grind

theorem WellFormed.leads_foldl (h : t.WellFormed) {names : List String} (hpath : t.Leads path location)
    (hdown : names.all leadsDown = true) (hmem : (location ++ names, entry) ∈ t.entries) :
    t.Leads (names.foldl Path.join path) (location ++ names) := by
  induction names generalizing location path with
  | nil => simpa using hpath
  | cons name rest ih =>
    rw [List.all_cons, Bool.and_eq_true] at hdown
    have hdirectory : t.lookup? location = some .directory := h.directory_of_mem (List.cons_ne_nil _ _) hmem
    have hname : IsName name := (h.isName_of_mem hdown.1 hmem).1
    rw [List.append_cons] at hmem ⊢
    exact ih (hpath.join hdirectory hname) hdown.2 hmem

theorem WellFormed.filterMap_without {β : Type} {f g : String → Option β} (h : t.WellFormed)
    (hfiles : t.FilesOnly gone) (hpath : t.Leads path location)
    (hgone : ∀ file ∈ t.pathsBelow location path, ∀ target, t.Leads file target → gone target = true → g file = none)
    (hkept : ∀ file target, t.Leads file target → gone target = false → f file = g file) :
    ((t.without gone).pathsBelow location path).filterMap f = (t.pathsBelow location path).filterMap g := by
  rw [pathsBelow, h.filesBelow_without hfiles, pathsBelow]
  simp only [List.filterMap_map, List.filterMap_filter]
  refine List.filterMap_congr fun names hnames => ?_
  obtain ⟨hdown, entry, hmem, -⟩ := mem_filesBelow.mp hnames
  have hleads := h.leads_foldl hpath hdown hmem
  dsimp only [Function.comp_apply]
  cases hcan : canDescend path names with
  | false => simp
  | true =>
    cases hcase : gone (location ++ names) with
    | false => simpa using hkept _ _ hleads hcase
    | true =>
      have hfile : names.foldl Path.join path ∈ t.pathsBelow location path :=
        List.mem_map.mpr ⟨names, List.mem_filter.mpr ⟨hnames, hcan⟩, rfl⟩
      simpa using (hgone _ hfile _ hleads hcase).symm

end ShadeGraph.FileTree
