import Mathlib.Data.List.Nodup
import ShadeGraph.Document.Basic

/-!
# Importing keeps what is there

An import only appends. Each element of the library is either added or refused and reported, and it is refused exactly
where an element of its name is there, be it from the document or from the library itself. Since the first element that
fits is the one that counts, whatever could be looked up before is found again. The one exception are sources made for
all targets, which give way to a new one that is made for the target.
-/

namespace ShadeGraph

/-- A list is taken apart into two, each in its order: every item goes to one of them. -/
inductive Parted {α : Type} : List α → List α → List α → Prop where
  | nil : Parted [] [] []
  | left {a : α} {added refused items : List α} : Parted added refused items → Parted (a :: added) refused (a :: items)
  | right {a : α} {added refused items : List α} : Parted added refused items → Parted added (a :: refused) (a :: items)

/-- What an import does to one list of a document: items with a new name are added, and the others are refused. -/
structure Admits {α : Type} (name : α → String) (present items added refused : List α) : Prop where
  parted : Parted added refused items
  fresh : ∀ a ∈ added, name a ∉ present.map name
  once : (added.map name).Nodup
  known : ∀ a ∈ refused, name a ∈ (present ++ added).map name

section
variable {α : Type} {name : α → String} {label : String} {present items added refused : List α} {a : α}

theorem Parted.mem (h : Parted added refused items) (ha : a ∈ items) : a ∈ added ∨ a ∈ refused := by
  induction h with
  | nil => cases ha
  | left _ ih =>
    rcases List.mem_cons.mp ha with rfl | ha
    · exact Or.inl List.mem_cons_self
    · exact (ih ha).imp_left (List.mem_cons_of_mem _)
  | right _ ih =>
    rcases List.mem_cons.mp ha with rfl | ha
    · exact Or.inr List.mem_cons_self
    · exact (ih ha).imp_right (List.mem_cons_of_mem _)

theorem Admits.nil : Admits name present [] [] [] :=
  ⟨.nil, fun _ h => absurd h List.not_mem_nil, List.nodup_nil, fun _ h => absurd h List.not_mem_nil⟩

theorem Admits.refuse (hname : name a ∈ present.map name) (h : Admits name present items added refused) :
    Admits name present (a :: items) added (a :: refused) where
  parted := h.parted.right
  fresh := h.fresh
  once := h.once
  known := fun x hx => by
    rw [List.map_append]
    rcases List.mem_cons.mp hx with rfl | hx
    · exact List.mem_append_left _ hname
    · exact List.map_append ▸ h.known x hx

theorem Admits.add (hname : name a ∉ present.map name) (h : Admits name (present ++ [a]) items added refused) :
    Admits name present (a :: items) (a :: added) refused where
  parted := h.parted.left
  fresh := fun x hx => by
    rcases List.mem_cons.mp hx with rfl | hx
    · exact hname
    · exact fun hmem => h.fresh x hx (by simp [hmem])
  once := by
    rw [List.map_cons, List.nodup_cons]
    refine ⟨fun hmem => ?_, h.once⟩
    obtain ⟨x, hx, heq⟩ := List.mem_map.mp hmem
    exact h.fresh x hx (by simp [heq])
  known := fun x hx => by simpa using h.known x hx

theorem Admits.nodup (h : Admits name present items added refused) (hnames : (present.map name).Nodup) :
    ((present ++ added).map name).Nodup := by
  rw [List.map_append, List.nodup_append]
  refine ⟨hnames, h.once, fun x hx y hy heq => ?_⟩
  obtain ⟨b, hb, rfl⟩ := List.mem_map.mp hy
  exact h.fresh b hb (heq ▸ hx)

theorem importNew_cons_of_mem (h : name a ∈ present.map name) (items : List α) :
    importNew name label present (a :: items) = ((importNew name label present items).1,
      s!"{label} '{name a}'" :: (importNew name label present items).2) := by
  have hany : (present.any fun p => name p == name a) = true := by simpa using h
  rw [importNew, if_pos hany]

theorem importNew_cons_of_notMem (h : name a ∉ present.map name) (items : List α) :
    importNew name label present (a :: items) = importNew name label (present ++ [a]) items := by
  have hany : ¬ (present.any fun p => name p == name a) = true := by simpa using h
  rw [importNew, if_neg hany]

theorem importNew_admits (name : α → String) (label : String) (items : List α) : ∀ present, ∃ added refused,
    importNew name label present items = (present ++ added, refused.map fun a => s!"{label} '{name a}'") ∧
      Admits name present items added refused := by
  induction items with
  | nil => exact fun present => ⟨[], [], by simp [importNew], .nil⟩
  | cons a items ih =>
    intro present
    by_cases hname : name a ∈ present.map name
    · obtain ⟨added, refused, heq, hadmits⟩ := ih present
      exact ⟨added, a :: refused, by rw [importNew_cons_of_mem hname, heq]; rfl, hadmits.refuse hname⟩
    · obtain ⟨added, refused, heq, hadmits⟩ := ih (present ++ [a])
      exact ⟨a :: added, refused, by rw [importNew_cons_of_notMem hname, heq]; simp, hadmits.add hname⟩

end

/-- The source is made for the definition, the language and exactly this target. -/
def SourceDef.Serves (s : SourceDef) (nodedef language target : String) : Prop :=
  s.nodedef = nodedef ∧ s.language = language ∧ s.target = target

instance (s : SourceDef) (nodedef language target : String) : Decidable (s.Serves nodedef language target) :=
  inferInstanceAs (Decidable (_ ∧ _))

namespace Document

def append (d added : Document) : Document :=
  { d with
    nodedefs := d.nodedefs ++ added.nodedefs
    sources := d.sources ++ added.sources
    nodegraphs := d.nodegraphs ++ added.nodegraphs
    nodes := d.nodes ++ added.nodes }

def conflicts (refused : Document) : List String :=
  refused.nodedefs.map (fun x => s!"nodedef '{x.name}'") ++ refused.sources.map (fun x => s!"implementation '{x.name}'")
    ++ refused.nodegraphs.map (fun x => s!"nodegraph '{x.name}'") ++ refused.nodes.map (fun x => s!"node '{x.name}'")

/-- What an import does to the lists of a document. -/
structure Imports (d library added refused : Document) : Prop where
  nodedefs : Admits NodeDef.name d.nodedefs library.nodedefs added.nodedefs refused.nodedefs
  sources : Admits SourceDef.name d.sources library.sources added.sources refused.sources
  nodegraphs : Admits NodeGraph.name d.nodegraphs library.nodegraphs added.nodegraphs refused.nodegraphs
  nodes : Admits NodeInstance.name d.nodes library.nodes added.nodes refused.nodes

/-- No two elements of a list have the same name, for those lists of the first document where this is so. -/
structure KeepsDistinct (d d' : Document) : Prop where
  nodedefs : (d.nodedefs.map NodeDef.name).Nodup → (d'.nodedefs.map NodeDef.name).Nodup
  sources : (d.sources.map SourceDef.name).Nodup → (d'.sources.map SourceDef.name).Nodup
  nodegraphs : (d.nodegraphs.map NodeGraph.name).Nodup → (d'.nodegraphs.map NodeGraph.name).Nodup
  nodes : (d.nodes.map NodeInstance.name).Nodup → (d'.nodes.map NodeInstance.name).Nodup

/-- Whatever is found in the first document is found in the second one. -/
structure KeepsLookups (d d' : Document) : Prop where
  nodedef : ∀ name x, d.nodedef? name = some x → d'.nodedef? name = some x
  definition : ∀ node x, d.definitionOf? node = some x → d'.definitionOf? node = some x
  nodegraph : ∀ name x, d.nodegraph? name = some x → d'.nodegraph? name = some x
  graphFor : ∀ nodedef x, d.graphFor? nodedef = some x → d'.graphFor? nodedef = some x
  node : ∀ name x, d.node? name = some x → d'.node? name = some x

variable {d added : Document} {nodedef language target : String} {s : SourceDef}

theorem importLibrary_imports (d library : Document) : ∃ added refused,
    d.importLibrary library = (d.append added, refused.conflicts) ∧ d.Imports library added refused := by
  obtain ⟨nodedefs, nodedefs', heq₁, h₁⟩ := importNew_admits NodeDef.name "nodedef" library.nodedefs d.nodedefs
  obtain ⟨sources, sources', heq₂, h₂⟩ := importNew_admits SourceDef.name "implementation" library.sources d.sources
  obtain ⟨graphs, graphs', heq₃, h₃⟩ := importNew_admits NodeGraph.name "nodegraph" library.nodegraphs d.nodegraphs
  obtain ⟨nodes, nodes', heq₄, h₄⟩ := importNew_admits NodeInstance.name "node" library.nodes d.nodes
  refine ⟨⟨"", nodedefs, sources, graphs, nodes⟩, ⟨"", nodedefs', sources', graphs', nodes'⟩, ?_, h₁, h₂, h₃, h₄⟩
  rw [importLibrary, heq₁, heq₂, heq₃, heq₄]
  rfl

theorem Imports.keepsDistinct {library refused : Document} (h : d.Imports library added refused) :
    d.KeepsDistinct (d.append added) :=
  ⟨h.nodedefs.nodup, h.sources.nodup, h.nodegraphs.nodup, h.nodes.nodup⟩

theorem find?_append_of_some {α : Type} {p : α → Bool} {l more : List α} {a : α} (h : l.find? p = some a) :
    (l ++ more).find? p = some a := by
  rw [List.find?_append, h, Option.some_or]

theorem keepsLookups_append (d added : Document) : d.KeepsLookups (d.append added) where
  nodedef := fun _ _ h => find?_append_of_some h
  definition := fun node x h => by
    unfold definitionOf? at h ⊢
    split at h
    · exact find?_append_of_some h
    · exact find?_append_of_some h
  nodegraph := fun _ _ h => find?_append_of_some h
  graphFor := fun _ _ h => find?_append_of_some h
  node := fun _ _ h => find?_append_of_some h

/-! ## Sources -/

theorem source?_eq (d : Document) (nodedef language target : String) :
    d.source? nodedef language target = (d.sources.find? fun s => s.Serves nodedef language target).or
      (d.sources.find? fun s => s.Serves nodedef language "") := by
  have hfind : ∀ wanted, ((d.sources.filter fun s => s.nodedef == nodedef && s.language == language).find?
      fun s => s.target == wanted) = d.sources.find? fun s => s.Serves nodedef language wanted := by
    intro wanted
    rw [List.find?_filter]
    congr 1
    funext s
    rw [Bool.eq_iff_iff]
    simp only [decide_eq_true_eq, Bool.and_eq_true, beq_iff_eq, and_assoc]
    rfl
  rw [source?, hfind, hfind]

/-- The source that is found stays the same, unless it is made for all targets and a new one is made for this one. -/
theorem source?_append (h : d.source? nodedef language target = some s) :
    (d.append added).source? nodedef language target = some s ∧
        (s.target = target ∨ ∀ new ∈ added.sources, ¬ new.Serves nodedef language target) ∨
      s.target = "" ∧ s.target ≠ target ∧ ∃ new ∈ added.sources, new.Serves nodedef language target ∧
        (d.append added).source? nodedef language target = some new := by
  have hsources : (d.append added).sources = d.sources ++ added.sources := rfl
  rw [source?_eq] at h ⊢
  rw [hsources, List.find?_append, List.find?_append]
  cases hexact : d.sources.find? fun s => s.Serves nodedef language target with
  | some exact =>
    rw [hexact, Option.some_or] at h
    obtain rfl := Option.some.inj h
    have hserves : exact.Serves nodedef language target := by simpa using List.find?_some hexact
    exact Or.inl ⟨by simp, Or.inl hserves.2.2⟩
  | none =>
    rw [hexact, Option.none_or] at h
    have hserves : s.Serves nodedef language "" := by simpa using List.find?_some h
    have hother : s.target ≠ target := by
      intro heq
      have hnone := List.find?_eq_none.mp hexact s (List.mem_of_find?_eq_some h)
      exact hnone (by simpa using ⟨hserves.1, hserves.2.1, heq⟩)
    cases hnew : added.sources.find? fun s => s.Serves nodedef language target with
    | none =>
      refine Or.inl ⟨by simp [h], Or.inr fun new hmem => ?_⟩
      simpa using List.find?_eq_none.mp hnew new hmem
    | some new =>
      refine Or.inr ⟨hserves.2.2, hother, new, List.mem_of_find?_eq_some hnew, ?_, by simp⟩
      simpa using List.find?_some hnew

/-- **Importing a library keeps what is there.** Each list of the document gets some elements of the library behind its
own; each element of the library is added or reported as one conflict; names that differ still do; and what could be
looked up is found again. Only a source for all targets gives way to a new one that is made for the target. -/
theorem importLibrary_keeps (d library : Document) : ∃ added refused,
    d.importLibrary library = (d.append added, refused.conflicts) ∧ d.Imports library added refused ∧
    d.KeepsDistinct (d.append added) ∧ d.KeepsLookups (d.append added) ∧
    ∀ nodedef language target s, d.source? nodedef language target = some s →
      (d.append added).source? nodedef language target = some s ∧
          (s.target = target ∨ ∀ new ∈ added.sources, ¬ new.Serves nodedef language target) ∨
        s.target = "" ∧ s.target ≠ target ∧ ∃ new ∈ added.sources, new.Serves nodedef language target ∧
          (d.append added).source? nodedef language target = some new := by
  obtain ⟨added, refused, heq, himports⟩ := importLibrary_imports d library
  exact ⟨added, refused, heq, himports, himports.keepsDistinct, keepsLookups_append d added,
    fun nodedef language target s h => source?_append h⟩

end Document
end ShadeGraph
