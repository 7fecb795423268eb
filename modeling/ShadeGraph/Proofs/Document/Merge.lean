import ShadeGraph.Proofs.Document.Import

/-!
# Merging documents

Importing a library is a merge of documents in which the first element of a name wins. A second import of the same
library finds every name taken, so it adds nothing and reports everything. Two libraries can be imported one after the
other or be merged before: the elements that the merge leaves out are those that the second import would have refused.
-/

namespace ShadeGraph

variable {α : Type} {name : α → String} {label : String} {present items : List α}

theorem map_name_subset_importNew (present items : List α) :
    items.map name ⊆ (importNew name label present items).1.map name := by
  intro x hx
  obtain ⟨a, ha, rfl⟩ := List.mem_map.mp hx
  obtain ⟨added, refused, heq, hadmits⟩ := importNew_admits name label items present
  rw [heq]
  rcases hadmits.parted.mem ha with hadded | hrefused
  · exact List.mem_map_of_mem (List.mem_append_right present hadded)
  · exact hadmits.known a hrefused

theorem importNew_of_subset (h : items.map name ⊆ present.map name) :
    importNew name label present items = (present, items.map fun a => s!"{label} '{name a}'") := by
  induction items with
  | nil => rfl
  | cons a items ih =>
    obtain ⟨ha, hitems⟩ := List.cons_subset.mp h
    rw [importNew_cons_of_mem ha, ih hitems]
    rfl

theorem importNew_append (xs ys : List α) : ∀ present,
    (importNew name label present (xs ++ ys)).1 = (importNew name label (importNew name label present xs).1 ys).1 := by
  induction xs with
  | nil => exact fun _ => rfl
  | cons a xs ih =>
    intro present
    by_cases h : name a ∈ present.map name
    · rw [List.cons_append, importNew_cons_of_mem h, importNew_cons_of_mem h]
      exact ih present
    · rw [List.cons_append, importNew_cons_of_notMem h, importNew_cons_of_notMem h]
      exact ih (present ++ [a])

theorem importNew_assoc (present ys : List α) : ∀ xs,
    (importNew name label (importNew name label present xs).1 ys).1 =
      (importNew name label present (importNew name label xs ys).1).1 := by
  -- The induction is on the second list, with the first one growing by what is merged into it. An item that the merge
  -- leaves out has a name of the first list, so the import behind it refuses the item too.
  induction ys with
  | nil => exact fun _ => rfl
  | cons a ys ih =>
    intro xs
    by_cases h : name a ∈ xs.map name
    · have hknown : name a ∈ (importNew name label present xs).1.map name := map_name_subset_importNew present xs h
      rw [importNew_cons_of_mem h, importNew_cons_of_mem hknown]
      exact ih xs
    · rw [importNew_cons_of_notMem h, ← ih (xs ++ [a]), importNew_append xs [a],
        ← importNew_append [a] ys (importNew name label present xs).1]
      rfl

namespace Document

/-- Every element of the library has an element of its kind and name in the document. -/
structure Covers (d library : Document) : Prop where
  nodedefs : library.nodedefs.map NodeDef.name ⊆ d.nodedefs.map NodeDef.name
  sources : library.sources.map SourceDef.name ⊆ d.sources.map SourceDef.name
  nodegraphs : library.nodegraphs.map NodeGraph.name ⊆ d.nodegraphs.map NodeGraph.name
  nodes : library.nodes.map NodeInstance.name ⊆ d.nodes.map NodeInstance.name

theorem importLibrary_fst (d library : Document) : (d.importLibrary library).1 =
    { d with
      nodedefs := (importNew NodeDef.name "nodedef" d.nodedefs library.nodedefs).1
      sources := (importNew SourceDef.name "implementation" d.sources library.sources).1
      nodegraphs := (importNew NodeGraph.name "nodegraph" d.nodegraphs library.nodegraphs).1
      nodes := (importNew NodeInstance.name "node" d.nodes library.nodes).1 } := rfl

theorem covers_importLibrary (d library : Document) : (d.importLibrary library).1.Covers library where
  nodedefs := map_name_subset_importNew d.nodedefs library.nodedefs
  sources := map_name_subset_importNew d.sources library.sources
  nodegraphs := map_name_subset_importNew d.nodegraphs library.nodegraphs
  nodes := map_name_subset_importNew d.nodes library.nodes

theorem Covers.importLibrary {d library : Document} (h : d.Covers library) :
    d.importLibrary library = (d, library.conflicts) := by
  rw [Document.importLibrary, importNew_of_subset h.nodedefs, importNew_of_subset h.sources,
    importNew_of_subset h.nodegraphs, importNew_of_subset h.nodes]
  rfl

/-- **Importing is idempotent and associative.** An import covers the library, so a second one changes nothing and
reports each of its elements; and importing two libraries one after the other is importing the first one with the second
one merged into it. -/
theorem importLibrary_again_and_assoc (d l₁ l₂ : Document) :
    (d.importLibrary l₁).1.Covers l₁ ∧
    (d.importLibrary l₁).1.importLibrary l₁ = ((d.importLibrary l₁).1, l₁.conflicts) ∧
    ((d.importLibrary l₁).1.importLibrary l₂).1 = (d.importLibrary (l₁.importLibrary l₂).1).1 := by
  have hcovers := covers_importLibrary d l₁
  refine ⟨hcovers, hcovers.importLibrary, ?_⟩
  simp only [importLibrary_fst, importNew_assoc]

end Document
end ShadeGraph
