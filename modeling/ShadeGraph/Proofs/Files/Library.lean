import ShadeGraph.Files.Library
import ShadeGraph.Proofs.Files.Walk
import ShadeGraph.Proofs.Ron.RoundTrip

/-!
# Loading libraries

Loading libraries meets files and names one after the other. The documents among them are imported in this order, and
each of the others is reported once. A file that was not loaded has no influence on the rest, so it can be deleted;
but a name that leads to such a file itself would be looked up in the next directory of the search path.
-/

namespace ShadeGraph

/-- Imports documents one after the other and reports what is left out of each of them. -/
def Document.importAll (d : Document) : List Document → Document × List String
  | [] => (d, [])
  | library :: rest =>
    let first := d.importLibrary library
    let others := first.1.importAll rest
    (others.1, first.2 ++ others.2)

theorem Document.importAll_append (libraries rest : List Document) : ∀ d : Document, d.importAll (libraries ++ rest) =
    (((d.importAll libraries).1.importAll rest).1,
      (d.importAll libraries).2 ++ ((d.importAll libraries).1.importAll rest).2) := by
  induction libraries with
  | nil => exact fun _ => rfl
  | cons library libraries ih =>
    intro d
    simp [importAll, ih]

/-- What is met while libraries are loaded: a file with its document, or a file or a name with the reason why there is no
document. -/
abbrev Met := List (String × Except Error Document)

namespace Met

def documents (met : Met) : List (String × Document) := met.filterMap fun m => m.2.toOption.map fun d => (m.1, d)

/-- The reports about the others. -/
def failures (met : Met) : List String :=
  met.filterMap fun m => match m.2 with
    | .ok _ => none
    | .error e => some (FileTree.failure m.1 e)

theorem documents_append (met met' : Met) : documents (met ++ met') = met.documents ++ met'.documents :=
  List.filterMap_append ..

theorem failures_append (met met' : Met) : failures (met ++ met') = met.failures ++ met'.failures :=
  List.filterMap_append ..

theorem documents_flatMap_filter (f : String → Met) (keep : String → Bool) (names : List String) :
    documents ((names.filter keep).flatMap f) =
      names.flatMap fun name => if keep name then (f name).documents else [] := by
  induction names with
  | nil => rfl
  | cons name names ih =>
    rw [List.filter_cons, List.flatMap_cons, ← ih]
    split
    · rw [List.flatMap_cons, documents_append]
    · rfl

theorem documents_flatMap (f : String → Met) (names : List String) :
    documents (names.flatMap f) = names.flatMap fun name => (f name).documents := List.filterMap_flatMap ..

end Met

/-! ## Names -/

/-- What is met under a name: the documents at or below the first place of the search path where something is, in the
order of a depth first walk, or the name itself if there is no such place. -/
inductive Meets (s : SearchPath) (t : FileTree) (name : String) : Met → Prop
  | missing (hnone : ∀ path ∈ s.candidates name, t.contains path = false) :
    Meets s t name [(name, .error (.fileNotFound name))]
  | found {tried others files : List String} {path : String} {location : Location} {entry : FileEntry}
    (hplaces : s.candidates name = tried ++ path :: others) (htried : ∀ place ∈ tried, t.contains place = false)
    (hresolve : t.resolve path = .ok (location, entry)) (hfiles : t.Lists location path files) :
    Meets s t name ((files.filter fun file => Path.extension? file == some FileTree.documentExtension).map
      fun file => (file, t.document file))

/-- What loading meets under a name. -/
def SearchPath.met (s : SearchPath) (t : FileTree) (name : String) : Met :=
  match s.find t name with
  | .ok root => (t.documentPaths root).map fun path => (path, t.document path)
  | .error e => [(name, .error e)]

namespace SearchPath

variable {s : SearchPath} {t : FileTree} {name path : String} {location : Location} {gone : Location → Bool}

theorem find_eq_ok_iff : s.find t name = .ok path ↔ (s.candidates name).find? t.contains = some path := by
  unfold find
  split
  · rename_i found hfound
    simp [hfound]
  · rename_i hnone
    simp [hnone]

theorem find_eq_error {e : Error} (h : s.find t name = .error e) :
    e = .fileNotFound name ∧ ∀ path ∈ s.candidates name, t.contains path = false := by
  unfold find at h
  split at h
  · cases h
  · rename_i hnone
    exact ⟨(Except.error.inj h).symm, fun path hpath => by simpa using List.find?_eq_none.mp hnone path hpath⟩

theorem resolve_of_find (h : s.find t name = .ok path) : ∃ location entry, t.resolve path = .ok (location, entry) :=
  FileTree.contains_iff.mp (List.find?_some (find_eq_ok_iff.mp h))

theorem meets_met (ht : t.WellFormed) (s : SearchPath) (name : String) : Meets s t name (s.met t name) := by
  unfold met
  split
  · rename_i path hfind
    obtain ⟨location, entry, hresolve⟩ := resolve_of_find hfind
    obtain ⟨-, tried, others, hplaces, htried⟩ := List.find?_eq_some_iff_append.mp (find_eq_ok_iff.mp hfind)
    exact .found hplaces (fun place hplace => by simpa using htried place hplace) hresolve (ht.lists_walk hresolve)
  · rename_i e hfind
    obtain ⟨rfl, hnone⟩ := find_eq_error hfind
    exact .missing hnone

end SearchPath

/-! ## Loading -/

namespace LibraryLoad

variable {files : FileTree}

/-- A load that goes on with what is met. -/
def after (l : LibraryLoad) (met : Met) : LibraryLoad where
  document := (l.document.importAll (met.documents.map Prod.snd)).1
  loaded := l.loaded ++ met.documents.map Prod.fst
  conflicts := l.conflicts ++ (l.document.importAll (met.documents.map Prod.snd)).2
  failures := l.failures ++ met.failures

theorem after_nil (l : LibraryLoad) : l.after [] = l := by
  simp [after, Met.documents, Met.failures, Document.importAll]

theorem after_append (l : LibraryLoad) (met met' : Met) : l.after (met ++ met') = (l.after met).after met' := by
  simp [after, Met.documents_append, Met.failures_append, Document.importAll_append]

theorem after_error (l : LibraryLoad) (name : String) (e : Error) :
    l.after [(name, .error e)] = { l with failures := l.failures ++ [FileTree.failure name e] } := by
  simp [after, Met.documents, Met.failures, Document.importAll, Except.toOption]

theorem addFile_eq (l : LibraryLoad) (path : String) :
    l.addFile files path = l.after [(path, files.document path)] := by
  unfold addFile
  cases files.document path with
  | error e => exact (after_error l path e).symm
  | ok d => simp [after, Met.documents, Met.failures, Document.importAll, Except.toOption]

theorem addFiles_eq (paths : List String) : ∀ l : LibraryLoad,
    paths.foldl (addFile files) l = l.after (paths.map fun path => (path, files.document path)) := by
  induction paths with
  | nil => exact fun l => (after_nil l).symm
  | cons path paths ih =>
    intro l
    rw [List.foldl_cons, ih, addFile_eq, ← after_append]
    rfl

theorem addLibrary_eq (s : SearchPath) (l : LibraryLoad) (name : String) :
    l.addLibrary s files name = l.after (s.met files name) := by
  unfold addLibrary SearchPath.met
  cases s.find files name with
  | ok root => exact addFiles_eq _ l
  | error e => exact (after_error l name e).symm

end LibraryLoad

/-- Loading is importing what is met, name by name. -/
theorem Document.loadLibraries_eq (d : Document) (s : SearchPath) (t : FileTree) (names : List String) :
    d.loadLibraries s t names = LibraryLoad.after { document := d } (names.flatMap (s.met t)) := by
  have hfold (l : LibraryLoad) :
      names.foldl (LibraryLoad.addLibrary s t) l = l.after (names.flatMap (s.met t)) := by
    induction names generalizing l with
    | nil => exact (LibraryLoad.after_nil l).symm
    | cons name names ih =>
      rw [List.foldl_cons, ih, LibraryLoad.addLibrary_eq, ← LibraryLoad.after_append, List.flatMap_cons]
  exact hfold _

/-! ## Deleted files and names -/

def SearchPath.location? (s : SearchPath) (t : FileTree) (name : String) : Option Location :=
  (s.find t name).toOption.bind fun path => (t.resolve path).toOption.map Prod.fst

/-- Files are deleted, and names are left out, without an influence on what is loaded. -/
structure Spares (s : SearchPath) (t : FileTree) (names loaded : List String) (gone : Location → Bool)
    (keep : String → Bool) : Prop where
  /-- Only files are deleted. -/
  files : t.FilesOnly gone
  /-- No file that was loaded is deleted. -/
  unloaded : ∀ path ∈ loaded, ∀ location entry, t.resolve path = .ok (location, entry) → gone location = false
  /-- Only names that lead to nothing or to a deleted file are left out. -/
  dropped : ∀ name ∈ names, keep name = false → (s.location? t name).all gone = true
  /-- A name that leads to a deleted file and is not left out leads nowhere afterwards. -/
  kept : ∀ name ∈ names, keep name = true → (s.location? t name).any gone = true →
    s.location? (t.without gone) name = none

namespace FileTree

variable {t : FileTree} {path : String} {location : Location} {entry : FileEntry} {gone : Location → Bool}

theorem document_of_resolve {d : Document} (h : t.document path = .ok d) :
    ∃ location content, t.resolve path = .ok (location, .text content) ∧ Document.ofText? content = some d := by
  obtain ⟨content, hread, hparse⟩ := except_bind_eq_ok.mp h
  unfold readFile read at hread
  cases hresolve : t.resolve path with
  | error e => simp [hresolve, bind, Except.bind, Except.mapError] at hread
  | ok found =>
    obtain ⟨location, entry⟩ := found
    cases entry with
    | text text =>
      obtain rfl : text = content := by
        simpa [hresolve, bind, Except.bind, pure, Except.pure, Except.mapError] using hread
      refine ⟨location, text, rfl, ?_⟩
      split at hparse
      · rename_i d' hd
        rw [hd, Except.ok.inj hparse]
      · exact absurd hparse except_throw_ne_ok
    | directory => simp [hresolve, bind, Except.bind, throw, throwThe, MonadExceptOf.throw, Except.mapError] at hread
    | binary => simp [hresolve, bind, Except.bind, throw, throwThe, MonadExceptOf.throw, Except.mapError] at hread

/-- The document at a path, unless the path has another extension. -/
def readable (t : FileTree) (path : String) : Option (String × Document) :=
  if Path.extension? path == some documentExtension then (t.document path).toOption.map fun d => (path, d) else none

theorem readable_eq_some {found : String × Document} (h : t.readable path = some found) :
    found.1 = path ∧ t.document path = .ok found.2 := by
  unfold readable at h
  split at h
  · cases hread : t.document path with
    | error e => simp [hread, Except.toOption] at h
    | ok d =>
      obtain rfl : (path, d) = found := by simpa [hread, Except.toOption] using h
      exact ⟨rfl, rfl⟩
  · cases h

theorem document_without (hfiles : t.FilesOnly gone) (hleads : t.Leads path location) (hkept : gone location = false) :
    (t.without gone).document path = t.document path := by
  rw [document, document, readFile, readFile, read, read, resolve_without hfiles hleads hkept]

end FileTree

namespace SearchPath

variable {s : SearchPath} {t : FileTree} {name path : String} {location : Location} {entry : FileEntry}
  {gone : Location → Bool}

theorem location?_of_find (hfind : s.find t name = .ok path) (hresolve : t.resolve path = .ok (location, entry)) :
    s.location? t name = some location := by
  rw [location?, hfind, Except.toOption, Option.bind_some, hresolve]
  rfl

theorem documents_met_of_error {e : Error} (h : s.find t name = .error e) : (s.met t name).documents = [] := by
  rw [met, h]
  rfl

theorem documents_met_of_location? (h : s.location? t name = none) : (s.met t name).documents = [] := by
  cases hfind : s.find t name with
  | error e => exact documents_met_of_error hfind
  | ok path =>
    obtain ⟨location, entry, hresolve⟩ := resolve_of_find hfind
    rw [location?_of_find hfind hresolve] at h
    cases h

theorem documents_met (hfind : s.find t name = .ok path) (hresolve : t.resolve path = .ok (location, entry)) :
    (s.met t name).documents = (t.pathsBelow location path).filterMap t.readable := by
  simp only [met, hfind, Met.documents, FileTree.documentPaths, FileTree.walk_of_resolve hresolve, List.filterMap_map,
    List.filterMap_filter]
  rfl

theorem document_of_mem {library : Document} (h : (path, library) ∈ (s.met t name).documents) :
    t.document path = .ok library := by
  cases hfind : s.find t name with
  | error e =>
    rw [documents_met_of_error hfind] at h
    cases h
  | ok root =>
    obtain ⟨location, entry, hresolve⟩ := resolve_of_find hfind
    rw [documents_met hfind hresolve] at h
    obtain ⟨file, -, hreads⟩ := List.mem_filterMap.mp h
    obtain ⟨rfl, hdocument⟩ := FileTree.readable_eq_some hreads
    exact hdocument

theorem find_without (hfiles : t.FilesOnly gone) (hfind : s.find t name = .ok path)
    (hleads : t.Leads path location) (hkept : gone location = false) : s.find (t.without gone) name = .ok path := by
  rw [find_eq_ok_iff, List.find?_eq_some_iff_append] at hfind ⊢
  obtain ⟨hthere, tried, others, hplaces, htried⟩ := hfind
  refine ⟨?_, tried, others, hplaces, fun place hplace => ?_⟩
  · rw [FileTree.contains, FileTree.resolve_without hfiles hleads hkept]
    exact hthere
  · by_contra hcontains
    have := FileTree.contains_of_without hfiles (by simpa using hcontains)
    exact absurd (htried place hplace) (by simp [this])

theorem find_without_error {e : Error} (hfiles : t.FilesOnly gone) (hfind : s.find t name = .error e) :
    ∃ e', s.find (t.without gone) name = .error e' := by
  cases hother : s.find (t.without gone) name with
  | error e' => exact ⟨e', rfl⟩
  | ok path =>
    rw [find_eq_ok_iff, List.find?_eq_some_iff_append] at hother
    obtain ⟨hthere, tried, others, hplaces, -⟩ := hother
    have hnone := (find_eq_error hfind).2 path (by simp [hplaces])
    exact absurd (FileTree.contains_of_without hfiles hthere) (by simp [hnone])

end SearchPath

theorem Document.mem_loaded {d : Document} {s : SearchPath} {t : FileTree} {names : List String} {path : String} :
    path ∈ (d.loadLibraries s t names).loaded ↔
      ∃ name ∈ names, ∃ library, (path, library) ∈ (s.met t name).documents := by
  rw [Document.loadLibraries_eq, LibraryLoad.after, Met.documents_flatMap, List.nil_append, List.mem_map]
  simp only [List.mem_flatMap]
  constructor
  · rintro ⟨⟨_, library⟩, ⟨name, hname, hmem⟩, rfl⟩
    exact ⟨name, hname, library, hmem⟩
  · rintro ⟨name, hname, library, hmem⟩
    exact ⟨(path, library), ⟨name, hname, hmem⟩, rfl⟩

namespace Spares

variable {s : SearchPath} {t : FileTree} {names : List String} {gone : Location → Bool} {keep : String → Bool}
  {name path file : String} {location : Location} {entry : FileEntry} {d : Document}

theorem readable_eq_none (h : Spares s t names (d.loadLibraries s t names).loaded gone keep) (hname : name ∈ names)
    (hfind : s.find t name = .ok path) (hresolve : t.resolve path = .ok (location, entry))
    (hfile : file ∈ t.pathsBelow location path) {target : Location} (hleads : t.Leads file target)
    (hgone : gone target = true) : t.readable file = none := by
  by_contra hreads
  obtain ⟨⟨file', library⟩, hreads⟩ := Option.ne_none_iff_exists'.mp hreads
  obtain ⟨rfl, hdocument⟩ := FileTree.readable_eq_some hreads
  have hloaded : file' ∈ (d.loadLibraries s t names).loaded := by
    refine Document.mem_loaded.mpr ⟨name, hname, library, ?_⟩
    rw [SearchPath.documents_met hfind hresolve]
    exact List.mem_filterMap.mpr ⟨file', hfile, hreads⟩
  obtain ⟨target', content, hresolve', -⟩ := FileTree.document_of_resolve hdocument
  obtain ⟨-, hleads', -⟩ := FileTree.resolve_eq_ok_iff.mp hresolve'
  obtain rfl : target = target' := Except.ok.inj (hleads.2.symm.trans hleads'.2)
  exact absurd (h.unloaded file' hloaded target _ hresolve') (by simp [hgone])

theorem documents_of_gone (h : Spares s t names (d.loadLibraries s t names).loaded gone keep) (ht : t.WellFormed)
    (hname : name ∈ names) (hfind : s.find t name = .ok path) (hresolve : t.resolve path = .ok (location, entry))
    (hgone : gone location = true) : (s.met t name).documents = [] := by
  obtain ⟨-, hleads, hentry⟩ := FileTree.resolve_eq_ok_iff.mp hresolve
  have hfile : entry ≠ .directory := fun hdirectory => h.files location hgone (hdirectory ▸ hentry)
  rw [SearchPath.documents_met hfind hresolve]
  rcases FileTree.WellFormed.mem_or_above hentry with hmem | ⟨hdirectory, -⟩
  · have hpaths := ht.pathsBelow_file hmem hfile path
    have hnone := h.readable_eq_none hname hfind hresolve (by simp [hpaths]) hleads hgone
    simp [hpaths, hnone]
  · exact absurd hdirectory hfile

theorem documents_met_without (h : Spares s t names (d.loadLibraries s t names).loaded gone keep) (ht : t.WellFormed)
    (hname : name ∈ names) (hkeep : keep name = true) :
    (s.met (t.without gone) name).documents = (s.met t name).documents := by
  cases hfind : s.find t name with
  | error e =>
    obtain ⟨e', hfind'⟩ := SearchPath.find_without_error h.files hfind
    rw [SearchPath.documents_met_of_error hfind, SearchPath.documents_met_of_error hfind']
  | ok path =>
    obtain ⟨location, entry, hresolve⟩ := SearchPath.resolve_of_find hfind
    obtain ⟨-, hleads, -⟩ := FileTree.resolve_eq_ok_iff.mp hresolve
    cases hgone : gone location with
    | true =>
      have hnowhere := h.kept name hname hkeep (by simp [SearchPath.location?_of_find hfind hresolve, hgone])
      rw [h.documents_of_gone ht hname hfind hresolve hgone, SearchPath.documents_met_of_location? hnowhere]
    | false =>
      have hresolve' := (FileTree.resolve_without h.files hleads hgone).trans hresolve
      rw [SearchPath.documents_met (SearchPath.find_without h.files hfind hleads hgone) hresolve',
        SearchPath.documents_met hfind hresolve]
      refine ht.filterMap_without h.files hleads ?_ ?_
      · intro file hfile target hfileLeads htarget
        exact h.readable_eq_none hname hfind hresolve hfile hfileLeads htarget
      · intro file target hfileLeads htarget
        rw [FileTree.readable, FileTree.readable, FileTree.document_without h.files hfileLeads htarget]

theorem documents_without (h : Spares s t names (d.loadLibraries s t names).loaded gone keep) (ht : t.WellFormed) :
    Met.documents ((names.filter keep).flatMap (s.met (t.without gone))) = Met.documents (names.flatMap (s.met t)) := by
  rw [Met.documents_flatMap_filter, Met.documents_flatMap]
  refine List.flatMap_congr fun name hname => ?_
  cases hkeep : keep name with
  | true => simpa using h.documents_met_without ht hname hkeep
  | false =>
    cases hfind : s.find t name with
    | error e => simp [SearchPath.documents_met_of_error hfind]
    | ok path =>
      obtain ⟨location, entry, hresolve⟩ := SearchPath.resolve_of_find hfind
      have hgone := h.dropped name hname hkeep
      rw [SearchPath.location?_of_find hfind hresolve, Option.all_some] at hgone
      simp [h.documents_of_gone ht hname hfind hresolve hgone]

end Spares

/-- Loading libraries isolates failures. The documents that are met under the names are imported in order, and the rest
is reported. Deleting files that were not loaded, such as those that cannot be read, and leaving out names that lead to
nothing changes nothing but these reports. -/
theorem Document.loadLibraries_isolates_failures (d : Document) (s : SearchPath) {t : FileTree} (ht : t.WellFormed)
    (names : List String) :
    (∃ met : List Met, List.Forall₂ (Meets s t) names met ∧
      d.loadLibraries s t names = LibraryLoad.after { document := d } met.flatten) ∧
    ∀ gone keep, Spares s t names (d.loadLibraries s t names).loaded gone keep →
      (d.loadLibraries s (t.without gone) (names.filter keep)).document = (d.loadLibraries s t names).document ∧
      (d.loadLibraries s (t.without gone) (names.filter keep)).loaded = (d.loadLibraries s t names).loaded ∧
      (d.loadLibraries s (t.without gone) (names.filter keep)).conflicts = (d.loadLibraries s t names).conflicts := by
  refine ⟨⟨names.map (s.met t), ?_, d.loadLibraries_eq s t names⟩, fun gone keep h => ?_⟩
  · rw [List.forall₂_map_right_iff, List.forall₂_same]
    exact fun name _ => SearchPath.meets_met ht s name
  · have hdocuments := h.documents_without ht
    simp only [Document.loadLibraries_eq, LibraryLoad.after, hdocuments, and_self]

/-! ## Files without a document -/

def FileEntry.document? : FileEntry → Option Document
  | .text content => Document.ofText? content
  | .directory | .binary => none

/-- A file that cannot be read or holds no document. -/
def FileTree.IsBroken (t : FileTree) (location : Location) : Prop :=
  ∃ entry, t.lookup? location = some entry ∧ entry ≠ .directory ∧ entry.document? = none

theorem Spares.of_isBroken {s : SearchPath} {t : FileTree} {names : List String} {gone : Location → Bool}
    {keep : String → Bool} (d : Document) (hbroken : ∀ location, gone location = true → t.IsBroken location)
    (hdropped : ∀ name ∈ names, keep name = false → (s.location? t name).all gone = true)
    (hkept : ∀ name ∈ names, keep name = true → (s.location? t name).any gone = true →
      s.location? (t.without gone) name = none) :
    Spares s t names (d.loadLibraries s t names).loaded gone keep where
  files := by
    intro location hgone hdirectory
    obtain ⟨entry, hentry, hfile, -⟩ := hbroken location hgone
    exact hfile (Option.some.inj (hentry.symm.trans hdirectory))
  unloaded := by
    intro path hpath location entry hresolve
    obtain ⟨name, -, library, hmem⟩ := Document.mem_loaded.mp hpath
    obtain ⟨location', content, hresolve', hparse⟩ :=
      FileTree.document_of_resolve (SearchPath.document_of_mem hmem)
    obtain ⟨rfl, rfl⟩ := Prod.mk.inj (Except.ok.inj (hresolve.symm.trans hresolve'))
    by_contra hgone
    obtain ⟨entry, hentry, -, hnone⟩ := hbroken location (by simpa using hgone)
    rw [(FileTree.resolve_eq_ok_iff.mp hresolve).2.2] at hentry
    rw [← Option.some.inj hentry, FileEntry.document?, hparse] at hnone
    cases hnone
  dropped := hdropped
  kept := hkept

/-- A tree with two directories of the search path. Both have a file of the same name, and the first one is broken, as
is one of the files in the library. -/
def FileTree.overlaid : FileTree := .ofFiles
  [("a/shared.ron", .text "("), ("b/shared.ron", .text "(nodedefs:[(name:\"ND_good\",node:\"z\")])"),
    ("b/lib/bad.ron", .binary), ("b/lib/good.ron", .text "(nodedefs:[(name:\"ND_good\",node:\"z\")])")]

def FileTree.overlaidBroken (location : Location) : Bool :=
  [["a", "shared.ron"], ["b", "lib", "bad.ron"]].contains location

theorem FileTree.isBroken_overlaid (location : Location) (h : overlaidBroken location = true) :
    overlaid.IsBroken location := by
  rcases (by simpa [overlaidBroken] using h : location = ["a", "shared.ron"] ∨ location = ["b", "lib", "bad.ron"])
    with rfl | rfl
  · exact ⟨.text "(", by decide +kernel, by decide, by decide +kernel⟩
  · exact ⟨.binary, by decide +kernel, by decide, rfl⟩

/-- What is loaded from the tree or what is left of it. -/
def FileTree.loadOverlaid (t : FileTree) (names : List String) : LibraryLoad :=
  (default : Document).loadLibraries ⟨["a", "b"]⟩ t names

theorem Document.overlaid_isolates_failures :
    Spares ⟨["a", "b"]⟩ .overlaid ["lib", "missing", "shared.ron", "lib"]
      (FileTree.overlaid.loadOverlaid ["lib", "missing", "shared.ron", "lib"]).loaded FileTree.overlaidBroken
      (· == "lib") ∧
    (FileTree.overlaid.loadOverlaid ["lib", "missing", "shared.ron", "lib"]).loaded =
      ["b/lib/good.ron", "b/lib/good.ron"] ∧
    (FileTree.overlaid.loadOverlaid ["lib", "missing", "shared.ron", "lib"]).conflicts = ["nodedef 'ND_good'"] := by
  have hspares : Spares ⟨["a", "b"]⟩ .overlaid ["lib", "missing", "shared.ron", "lib"]
      (FileTree.overlaid.loadOverlaid ["lib", "missing", "shared.ron", "lib"]).loaded FileTree.overlaidBroken
      (· == "lib") := .of_isBroken default FileTree.isBroken_overlaid (by decide +kernel) (by decide +kernel)
  obtain ⟨-, hloaded, hconflicts⟩ := ((default : Document).loadLibraries_isolates_failures ⟨["a", "b"]⟩
    (FileTree.WellFormed.ofFiles _) ["lib", "missing", "shared.ron", "lib"]).2 FileTree.overlaidBroken (· == "lib")
    hspares
  exact ⟨hspares, hloaded.symm.trans (by decide +kernel), hconflicts.symm.trans (by decide +kernel)⟩

/-- A name that leads to a broken file leads to the next place of the search path when the file is deleted. -/
theorem Document.broken_file_hides_next :
    (∀ location, FileTree.overlaidBroken location = true → FileTree.overlaid.IsBroken location) ∧
    (FileTree.overlaid.loadOverlaid ["shared.ron"]).loaded = [] ∧
    ((FileTree.overlaid.without FileTree.overlaidBroken).loadOverlaid ["shared.ron"]).loaded = ["b/shared.ron"] ∧
    ((FileTree.overlaid.without FileTree.overlaidBroken).loadOverlaid ["shared.ron"]).document.nodedefs ≠
      (FileTree.overlaid.loadOverlaid ["shared.ron"]).document.nodedefs :=
  ⟨FileTree.isBroken_overlaid, by decide +kernel, by decide +kernel, by decide +kernel⟩

end ShadeGraph
