import ShadeGraph.Graph.Naming
import ShadeGraph.Proofs.Graph.Scoping

/-!
# Naming changes nothing but names

A graph whose variables have been named is, apart from the names, the graph it was. Whatever does not look at variables
carries over to it: which nodes there are, what they read, their order and their scopes.
-/

namespace ShadeGraph

/-- The input without its variable. -/
def Input.bare (i : Input) : Input := { i with variableName := "" }

def Output.bare (o : Output) : Output := { o with variableName := "" }

def Node.bare (n : Node) : Node := { n with inputs := n.inputs.map Input.bare, outputs := n.outputs.map Output.bare }

def Graph.bare (g : Graph) : Graph :=
  { g with
    nodes := g.nodes.map Node.bare
    inputSockets := g.inputSockets.map Output.bare
    outputSockets := g.outputSockets.map Input.bare }

/-! ## Giving names -/

section
variable {σ α β γ : Type} {f : α → StateM σ β}

theorem map_mapM_state {p : β → γ} {q : α → γ} (h : ∀ a s, p (f a s).1 = q a) (l : List α) :
    ∀ s, (l.mapM f s).1.map p = l.map q := by
  induction l with
  | nil => intro s; rfl
  | cons a l ih =>
    intro s
    rw [List.mapM_cons]
    change p (f a s).1 :: (l.mapM f (f a s).2).1.map p = _
    rw [h, ih, List.map_cons]

theorem forall_mem_mapM_state {P : β → Prop} (h : ∀ a s, P (f a s).1) (l : List α) :
    ∀ s, ∀ b ∈ (l.mapM f s).1, P b := by
  induction l with
  | nil => intro s b hb; exact absurd hb List.not_mem_nil
  | cons a l ih =>
    intro s b hb
    rw [List.mapM_cons] at hb
    change b ∈ (f a s).1 :: (l.mapM f (f a s).2).1 at hb
    rcases List.mem_cons.mp hb with rfl | hb
    · exact h a s
    · exact ih _ b hb

end

namespace Naming

variable {l : Language}

theorem input_bare (l : Language) (publish : Bool) (node : String) (i : Input) (used : List String) :
    (input l publish node i used).1.bare = i.bare := by
  unfold input
  split <;> rfl

theorem variableName_input (node : String) (i : Input) (used : List String) :
    (input l false node i used).1.variableName = "" := rfl

theorem node_bare (l : Language) (publish : Bool) (n : Node) (used : List String) :
    (node l publish n used).1.bare = n.bare := by
  have houtputs := fun s => map_mapM_state (f := output l n.name) (p := Output.bare) (q := Output.bare)
    (fun o s => rfl) n.outputs s
  have hinputs := fun s => map_mapM_state (input_bare l publish n.name) n.inputs s
  change Node.bare { n with
    outputs := (n.outputs.mapM (output l n.name) used).1
    inputs := (n.inputs.mapM (input l publish n.name) _).1 } = _
  simp only [Node.bare, hinputs, houtputs]

theorem variableName_node (n : Node) (used : List String) :
    ∀ i ∈ (node l false n used).1.inputs, i.variableName = "" :=
  forall_mem_mapM_state (variableName_input n.name) n.inputs _

end Naming

namespace Graph

variable {g h : Graph} {n : Node} {scope : Scope} {k : Nat} {l : Language} {publish : Bool}

/-- **Naming gives back the same graph with other names.** -/
theorem bare_assignVariables (g : Graph) (l : Language) (publish : Bool) :
    (g.assignVariables l publish).bare = g.bare := by
  have hsockets := fun s => map_mapM_state (f := Naming.inputSocket l) (p := Output.bare) (q := Output.bare)
    (fun o s => rfl) g.inputSockets s
  have hresults := fun s => map_mapM_state (f := Naming.outputSocket l) (p := Input.bare) (q := Input.bare)
    (fun o s => rfl) g.outputSockets s
  have hnodes := fun s => map_mapM_state (Naming.node_bare l publish) g.nodes s
  change Graph.bare { g with
    inputSockets := (g.inputSockets.mapM (Naming.inputSocket l) []).1
    outputSockets := (g.outputSockets.mapM (Naming.outputSocket l) _).1
    nodes := (g.nodes.mapM (Naming.node l publish) _).1 } = _
  simp only [bare, hsockets, hresults, hnodes]

theorem variableName_assignVariables (hn : n ∈ (g.assignVariables l false).nodes) :
    ∀ i ∈ n.inputs, i.variableName = "" :=
  forall_mem_mapM_state (P := fun n : Node => ∀ i ∈ n.inputs, i.variableName = "")
    Naming.variableName_node g.nodes _ n hn

/-! ## What names do not matter to -/

@[simp] theorem ids_bare (g : Graph) : g.bare.ids = g.ids := by simp [ids, bare, Node.bare, Function.comp_def]

@[simp] theorem id_bare (n : Node) : n.bare.id = n.id := rfl

theorem sourceNode?_bare : Input.sourceNode? ∘ Input.bare = Input.sourceNode? := rfl

@[simp] theorem roots_bare (g : Graph) : g.bare.roots = g.roots := by
  rw [roots, bare, List.filterMap_map, sourceNode?_bare, roots]

@[simp] theorem sources_bare (n : Node) : n.bare.sources = n.sources := by
  rw [Node.sources, Node.bare, List.filterMap_map, sourceNode?_bare, Node.sources]

theorem mem_bare {m : Node} (hm : m ∈ g.bare.nodes) : ∃ n ∈ g.nodes, m = n.bare := by
  obtain ⟨n, hn, rfl⟩ := List.mem_map.mp hm
  exact ⟨n, hn, rfl⟩

theorem node?_bare (g : Graph) (id : NodeId) : g.bare.node? id = (g.node? id).map Node.bare := by
  simp only [node?, bare, List.find?_map]
  rfl

@[simp] theorem reads_bare (g : Graph) : g.bare.Reads = g.Reads := by
  funext a b
  simp [Reads, node?_bare]

theorem branchBits_bare (inputs : List Input) :
    ∀ index, Node.branchBits index (inputs.map Input.bare) = Node.branchBits index inputs := by
  induction inputs with
  | nil => intro index; rfl
  | cons i rest ih =>
    intro index
    rw [List.map_cons, Node.branchBits, Node.branchBits, ih]
    rfl

@[simp] theorem passOn_bare (n : Node) : passOn n.bare = passOn n := by
  have hmask : n.bare.branchMask? = n.branchMask? := by
    simp [Node.branchMask?, Node.bare, branchBits_bare]
  funext scope index
  rw [passOn, passOn, hmask]
  rfl

theorem scheduled_bare (hg : g.Distinct) : g.bare.Scheduled ↔ g.Scheduled := by
  constructor
  · intro hs before n after hnodes m hm hread
    have hbare : g.bare.nodes = before.map Node.bare ++ n.bare :: after.map Node.bare := by simp [bare, hnodes]
    have hfront := hs _ _ _ hbare m.bare (List.mem_map_of_mem hm) (by simpa using hread)
    obtain ⟨b, hb, heq⟩ := List.mem_map.mp hfront
    have hb' : b ∈ g.nodes := by rw [hnodes]; exact List.mem_append_left _ hb
    have hid : b.id = m.id := by simpa using congrArg Node.id heq
    exact hg.eq_of_id hb' hm hid ▸ hb
  · intro hs before n after hnodes m hm hread
    obtain ⟨before, rest, hsplit, rfl, hrest⟩ := List.map_eq_append_iff.mp hnodes
    obtain ⟨n, after, rfl, rfl, rfl⟩ := List.map_eq_cons_iff.mp hrest
    obtain ⟨m, hm', rfl⟩ := mem_bare hm
    exact List.mem_map_of_mem (hs before n after hsplit m hm' (by simpa using hread))

theorem scoped_bare : g.bare.Scoped ↔ g.Scoped := by
  constructor
  · intro hs
    refine ⟨?_, ?_, ?_⟩
    · intro n hn k i hk m hm hsource
      have hcovers := hs.covers n.bare (List.mem_map_of_mem hn) k i.bare (by simp [Node.bare, hk]) m.bare
        (List.mem_map_of_mem hm) hsource
      rwa [passOn_bare] at hcovers
    · intro m hm hroot
      exact hs.rooted m.bare (List.mem_map_of_mem hm) (by simpa using hroot)
    · intro m hm c mask full hscope
      simpa using hs.inside m.bare (List.mem_map_of_mem hm) c mask full hscope
  · intro hs
    refine ⟨?_, ?_, ?_⟩
    · intro n hn k i hk m hm hsource
      obtain ⟨n, hn', rfl⟩ := mem_bare hn
      obtain ⟨m, hm', rfl⟩ := mem_bare hm
      rw [passOn_bare]
      rw [Node.bare, List.getElem?_map, Option.map_eq_some_iff] at hk
      obtain ⟨i, hk, rfl⟩ := hk
      exact hs.covers n hn' k i hk m hm' hsource
    · intro m hm hroot
      obtain ⟨m, hm', rfl⟩ := mem_bare hm
      exact hs.rooted m hm' (by simpa using hroot)
    · intro m hm c mask full hscope
      obtain ⟨m, hm', rfl⟩ := mem_bare hm
      simpa using hs.inside m hm' c mask full hscope

end Graph
end ShadeGraph
