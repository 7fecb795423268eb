import ShadeGraph.Proofs.Dialect.Names
import ShadeGraph.Proofs.Graph.Naming

/-!
# The variables of a graph are fresh names

Naming takes the list of the names given so far through all pins of a graph. Whatever it names, it adds just the names
it gives to that list, and they are fresh. This holds of a single name and is kept by loops and sequences, so it holds
of the whole graph.
-/

namespace ShadeGraph

def Input.variables (i : Input) : List String := if i.variableName = "" then [] else [i.variableName]

/-- The variables of a node: those of its outputs and of its published inputs. -/
def Node.variables (n : Node) : List String :=
  n.outputs.map Output.variableName ++ n.inputs.flatMap Input.variables

def Graph.variables (g : Graph) : List String :=
  g.inputSockets.map Output.variableName ++ g.outputSockets.map Input.variableName ++ g.nodes.flatMap Node.variables

namespace Naming

variable {α β : Type} {d : Dialect} {l : Language} {publish : Bool}

/-- What is named holds the given names, which are fresh and are all that becomes used. -/
def Grants (d : Dialect) (names : α → List String) (m : Naming α) : Prop :=
  ∀ used, (m used).2 = used ++ names (m used).1 ∧ d.Fresh used (names (m used).1)

theorem grants_give (name : String) : Grants d (fun given => [given]) (give d name) :=
  fun used => ⟨rfl, .validName d used name⟩

theorem Grants.next {names : α → List String} {m : Naming α} (hm : Grants d names m) {used given : List String}
    {used' : List String} (hgiven : used' = used ++ given ∧ d.Fresh used given) :
    (m used').2 = used ++ (given ++ names (m used').1) ∧ d.Fresh used (given ++ names (m used').1) := by
  obtain ⟨rfl, hfresh⟩ := hgiven
  obtain ⟨hused, hmore⟩ := hm (used ++ given)
  exact ⟨by rw [hused, List.append_assoc], hfresh.append hmore⟩

/-- **A loop grants the names that its steps grant.** -/
theorem Grants.mapM {names : β → List String} {f : α → Naming β} (hf : ∀ a, Grants d names (f a)) (list : List α) :
    Grants d (List.flatMap names) (list.mapM f) := by
  induction list with
  | nil => exact fun used => ⟨(List.append_nil used).symm, .nil⟩
  | cons a list ih =>
    intro used
    rw [List.mapM_cons]
    exact ih.next (hf a used)

theorem Grants.mapM_one {name : β → String} {f : α → Naming β} (hf : ∀ a, Grants d (fun b => [name b]) (f a))
    (list : List α) : Grants d (List.map name) (list.mapM f) := by
  have hmap : List.map name = List.flatMap fun b => [name b] := funext fun _ => List.map_eq_flatMap
  rw [hmap]
  exact .mapM hf list

/-! ## The pins of a graph -/

/-- Uniform inputs without a connection are published, if inputs are published at all. -/
def Published (publish : Bool) (i : Input) : Prop := publish = true ∧ i.uniform = true ∧ i.isConnected = false

theorem input_cases (l : Language) (publish : Bool) (node : String) (i : Input) (used : List String) :
    (∃ given, Published publish i ∧ l.dialect.Fresh used [given] ∧
      input l publish node i used = ({ i with variableName := given }, used ++ [given])) ∨
    (¬ Published publish i ∧ input l publish node i used = ({ i with variableName := "" }, used)) := by
  have hiff : Published publish i ↔ (publish && i.uniform && !i.isConnected) = true := by
    simp [Published, and_assoc]
  by_cases hpublished : Published publish i
  · exact .inl ⟨_, hpublished, .validName l.dialect used _, by rw [input, if_pos (hiff.mp hpublished)]; rfl⟩
  · exact .inr ⟨hpublished, by rw [input, if_neg (mt hiff.mpr hpublished)]; rfl⟩

theorem grants_input (node : String) (i : Input) : Grants l.dialect Input.variables (input l publish node i) := by
  intro used
  rcases input_cases l publish node i used with ⟨given, -, hfresh, heq⟩ | ⟨-, heq⟩
  · have hne : given ≠ "" := (hfresh.identifier given (List.mem_singleton_self given)).ne_empty
    rw [heq, Input.variables, if_neg hne]
    exact ⟨rfl, hfresh⟩
  · rw [heq, Input.variables, if_pos rfl]
    exact ⟨(List.append_nil used).symm, .nil⟩

theorem grants_node (n : Node) : Grants l.dialect Node.variables (node l publish n) := by
  intro used
  have houtputs : Grants l.dialect (List.map Output.variableName) (n.outputs.mapM (output l n.name)) :=
    .mapM_one (fun o used => grants_give _ used) n.outputs
  exact (Grants.mapM (grants_input n.name) n.inputs).next (houtputs used)

theorem grants_graph (g : Graph) : Grants l.dialect Graph.variables (graph l publish g) := by
  intro used
  have hsockets : Grants l.dialect (List.map Output.variableName) (g.inputSockets.mapM (inputSocket l)) :=
    .mapM_one (fun s used => grants_give _ used) g.inputSockets
  have hresults : Grants l.dialect (List.map Input.variableName) (g.outputSockets.mapM (outputSocket l)) :=
    .mapM_one (fun s used => grants_give _ used) g.outputSockets
  exact (Grants.mapM grants_node g.nodes).next (hresults.next (hsockets used))

theorem named_input (node : String) (i : Input) (used : List String) :
    (input l publish node i used).1.variableName ≠ "" ↔ Published publish (input l publish node i used).1 := by
  rcases input_cases l publish node i used with ⟨given, hpublished, hfresh, heq⟩ | ⟨hother, heq⟩
  · have hne : given ≠ "" := (hfresh.identifier given (List.mem_singleton_self given)).ne_empty
    rw [heq]
    exact iff_of_true hne hpublished
  · rw [heq]
    exact iff_of_false (fun hne => hne rfl) hother

theorem length_mapM_give (d : Dialect) (names used : List String) :
    (names.mapM (give d) used).1.length = names.length := by
  have hcount := map_mapM_state (f := give d) (p := fun _ => ()) (q := fun _ => ()) (fun _ _ => rfl) names used
  simpa using congrArg List.length hcount

end Naming

namespace Graph

/-- **Exactly the published inputs have a name.** -/
theorem named_assignVariables (g : Graph) (l : Language) (publish : Bool) :
    ∀ n ∈ (g.assignVariables l publish).nodes, ∀ i ∈ n.inputs, i.variableName ≠ "" ↔ Naming.Published publish i :=
  forall_mem_mapM_state (P := fun n : Node => ∀ i ∈ n.inputs, i.variableName ≠ "" ↔ Naming.Published publish i)
    (fun n _ => forall_mem_mapM_state (Naming.named_input n.name) n.inputs _) g.nodes _

theorem fresh_assignVariables (g : Graph) (l : Language) (publish : Bool) :
    l.dialect.Fresh [] (g.assignVariables l publish).variables :=
  (Naming.grants_graph g []).2

/-- **Names are valid and differ from each other.** The search for a valid name ends at the first candidate that is
neither reserved nor in use. Names that are given one after another are fresh. The variables of a graph are fresh: those
of its sockets, of the outputs of its nodes and of the published inputs, which are the uniform inputs without a
connection if inputs are published, and none otherwise. Nothing but names is changed. -/
theorem names_given_are_fresh (d : Dialect) (used names : List String) (g : Graph) (l : Language) (publish : Bool) :
    (∀ name, ∃ k ≤ d.reserved.length + used.length,
      d.validName used name = Text.numbered (Dialect.sanitize name) k ∧
      ¬ d.Taken used (Text.numbered (Dialect.sanitize name) k) ∧
      ∀ j < k, d.Taken used (Text.numbered (Dialect.sanitize name) j)) ∧
    (∃ given, names.mapM (Naming.give d) used = (given, used ++ given) ∧ given.length = names.length ∧
      d.Fresh used given) ∧
    l.dialect.Fresh [] (g.assignVariables l publish).variables ∧
    (∀ n ∈ (g.assignVariables l publish).nodes, ∀ i ∈ n.inputs,
      i.variableName ≠ "" ↔ publish = true ∧ i.uniform = true ∧ i.isConnected = false) ∧
    (g.assignVariables l publish).bare = g.bare := by
  refine ⟨Dialect.validName_first d used, ?_, fresh_assignVariables g l publish, named_assignVariables g l publish,
    bare_assignVariables g l publish⟩
  have hgiven : Naming.Grants d (List.map id) (names.mapM (Naming.give d)) := .mapM_one Naming.grants_give names
  obtain ⟨hused, hfresh⟩ := hgiven used
  rw [List.map_id] at hused hfresh
  exact ⟨(names.mapM (Naming.give d) used).1, Prod.ext rfl hused, Naming.length_mapM_give d names used, hfresh⟩

example : (["a b", "a_b", "a_b1", "", "9"].mapM (Naming.give { name := "none", reserved := ["_"] }) []).1
    = ["a_b", "a_b1", "a_b11", "_1", "_9"] := by cbv

end Graph
end ShadeGraph
