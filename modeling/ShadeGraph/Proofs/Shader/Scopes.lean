import Mathlib.Data.List.Flatten
import ShadeGraph.Proofs.Graph.Variables
import ShadeGraph.Proofs.Shader.Linkage

/-!
# The scopes of a shader

Every scope of generated code is one of a graph: some of its parameters, followed by what some of its nodes declare.
The graph is that of the shader or of a compound that it uses. In GLSL there is one more scope, outside of all
functions, with the uniforms.
-/

namespace ShadeGraph

open Code

/-- The names of all pins of a graph that can become parameters: those of its sockets and of the published inputs. -/
def Graph.interfaceNames (g : Graph) : List String :=
  g.inputSockets.map Output.variableName ++ g.outputSockets.map Input.variableName ++
    g.nodes.flatMap fun n => n.inputs.flatMap Input.variables

theorem Graph.body_sublist (g : Graph) : g.body.Sublist g.nodes := by
  unfold body
  split
  · exact List.filter_sublist
  · exact List.nil_sublist _

namespace Surroundings

/-- A scope in the code of a graph, by its parameters and nodes: the body of a function or a branch of a conditional. -/
inductive HasScope (e : Surroundings) : List Declaration → List Node → Prop
  | body {parameters : List Declaration}
      (names : (parameters.map Declaration.name).Subperm e.graph.interfaceNames) : HasScope e parameters e.graph.body
  | branch (c : NodeId) (k : Nat) : HasScope e [] (branchNodes e.graph c k)

theorem HasScope.sublist {e : Surroundings} {parameters : List Declaration} {nodes : List Node}
    (h : e.HasScope parameters nodes) : nodes.Sublist e.graph.nodes := by
  cases h with
  | body => exact e.graph.body_sublist
  | branch c k => exact List.filter_sublist

theorem HasScope.names {e : Surroundings} {parameters : List Declaration} {nodes : List Node}
    (h : e.HasScope parameters nodes) : (parameters.map Declaration.name).Subperm e.graph.interfaceNames := by
  cases h with
  | body names => exact names
  | branch c k => exact List.nil_subperm

/-- What is declared in a scope in the code of a graph: the parameters, and what the nodes declare. -/
def IsScope (e : Surroundings) (scope : List Declaration) : Prop :=
  ∃ parameters nodes, e.HasScope parameters nodes ∧ scope = parameters ++ nodes.flatMap e.declarations

theorem isScope_body {e : Surroundings} {parameters : List Declaration}
    (names : (parameters.map Declaration.name).Subperm e.graph.interfaceNames) :
    e.IsScope (parameters ++ e.bodyDeclarations) :=
  ⟨parameters, e.graph.body, .body names, rfl⟩

theorem isScope_branch (e : Surroundings) (c : NodeId) (k : Nat) :
    e.IsScope ((branchNodes e.graph c k).flatMap e.declarations) :=
  ⟨[], branchNodes e.graph c k, .branch c k, rfl⟩

end Surroundings

/-- The graph itself, or the graph of a compound that an output needs. -/
inductive Graph.Includes (g : Graph) : Graph → Prop
  | own : g.Includes g
  | inner {name function : String} {h : Graph} (used : g.Uses (.compound name function h)) : g.Includes h

theorem Graph.Throughout.uses {P : Graph → Prop} {g : Graph} (hg : g.Throughout P) {how : Implementation}
    (hhow : g.Uses how) : ∀ name function h, how = .compound name function h → h.Throughout P := by
  induction hhow with
  | own hn _ => exact fun name function h heq => hg.inside hn heq
  | inner _ hn _ ih => exact fun name function h heq => (ih _ _ _ rfl).inside hn heq

theorem Graph.Throughout.includes {P : Graph → Prop} {g h : Graph} (hg : g.Throughout P) (hh : g.Includes h) : P h := by
  cases hh with
  | own => exact hg.own
  | inner hused => exact (hg.uses hused _ _ _ rfl).own

namespace Code

variable {ok : List Declaration → Prop} {new : List Declaration} {code : Code}

theorem HasBody.of_braced (h : Layered ok code new) (before behind : String) :
    HasBody ok (braced before behind code) new := by
  refine ⟨[.text before], .text "\n" :: (code ++ [.text behind]), [.text "\n"], ?_, every_plain _, every_plain _, ?_⟩
  · simp [braced]
  · exact (h.andInert (every_plain behind)).text "\n"

theorem Shaped.hasBody {V F : String → Prop} {lets : Bool}
    (h : Shaped (Layered ok · new) (Every (Token.Within V F)) lets code) : HasBody ok code new := by
  cases h with
  | block hbody before behind => exact .of_braced hbody before behind
  | @result _ last hbody hresult indent before behind =>
    obtain ⟨front, body, back, hcode, hfront, hback, hlayered⟩ := HasBody.of_braced hbody before behind
    rw [hcode]
    refine ⟨[.text indent, .text letText, .text "\n"] ++ front, body, back ++ (last ++ [.text "\n"]), by simp, ?_, ?_,
      hlayered⟩
    · exact (((every_plain "\n").text letText).text indent).append hfront
    · exact hback.append (hresult.inert.append (every_plain "\n"))

theorem HasDefinition.hasFunction {name : String} {given : List Declaration}
    (h : HasDefinition name given (HasBody ok · new) code) : HasFunction ok code given new := by
  obtain ⟨indent, start, lines, body, rfl, hlines, hbody⟩ := h
  exact ⟨[.text indent, .text start], name, lines ++ [.text "\n"], body, rfl, (every_plain start).text indent,
    hlines.layered.andInert (every_plain "\n"), hbody⟩

theorem Program.of_inert (h : Every Token.IsInert code) : Program ok code [] := by
  simpa using Program.outside (.of_inert h) (.nil : Program ok [] [])

theorem Program.of_function {given : List Declaration} (h : HasFunction ok code given new) (hok : ok (given ++ new)) :
    Program ok code [] := by
  simpa using Program.function h hok .nil

end Code

namespace Emit

variable {ok : List Declaration → Prop} {e : Surroundings} {l : Language} {f : FloatFormat} {g : Graph} {o : Options}
  {s s' : Stage} {a : Unit} {name : String}

theorem emits_body_scope (hok : ∀ scope, e.IsScope scope → ok scope) (wrap : Bool) :
    Emits (body e wrap) fun _ c => HasBody ok c e.bodyDeclarations :=
  (emits_body_of_callAll Lays.tracks (Surroundings.lays_callAll fun c k => hok _ (e.isScope_branch c k)) wrap).mono
    fun _ _ hc => hc.hasBody

/-- The scopes of the functions that are defined are those of the graphs of compounds. -/
theorem program_defineFunctions
    (hok : ∀ name own h, g.Uses (.compound name own h) → ∀ scope, Surroundings.IsScope ⟨l, f, h⟩ scope → ok scope)
    (h : defineFunctions l f g s = .ok a s') : Grown (Program ok · []) s s' := by
  refine grown_defineFunctions (U := g.Uses) .nil Program.append (fun houter n hn hfeeds => .inner houter hn hfeeds) ?_ ?_
    _ g rfl (fun n hn hfeeds => .own hn hfeeds) s a s' h
  · exact fun name text => (emits_sourceText name text fun _ => trivial).mono fun _ _ hc => .of_inert hc
  · intro name own h hused
    have hscope := hok name own h hused
    refine (emits_define (emits_body_scope (e := ⟨l, f, h⟩) hscope false) name own).mono ?_
    rintro _ _ ⟨given, outs, front, rfl, hdefinition, hnames, houts⟩
    have hfunction := Program.of_function hdefinition.hasFunction (hscope _ (Surroundings.isScope_body ?_))
    · exact hfunction.append (.of_inert (every_plain "\n"))
    · rw [hnames]
      exact ((houts.append_left _).trans (List.sublist_append_left _ _)).subperm

/-! ## Layouts -/

theorem variables_eq_filter (inputs : List Input) : inputs.flatMap Input.variables =
    (inputs.filter fun i => i.variableName != "").map Input.variableName := by
  induction inputs with
  | nil => rfl
  | cons i inputs ih =>
    by_cases hname : i.variableName = ""
    · simp [Input.variables, hname, ih]
    · simp [Input.variables, hname, ih]

theorem names_publicBlock (g : Graph) (ids : List NodeId) :
    ((publicBlock g ids).uniforms.map Uniform.variableName ++ g.outputSockets.map Input.variableName).Subperm
      g.interfaceNames := by
  have hpublished : ((published g ids).map Uniform.variableName).Sublist (g.inputSockets.map Output.variableName ++
      g.nodes.flatMap fun n => n.inputs.flatMap Input.variables) := by
    rw [published, List.map_append, List.map_map, List.map_flatMap]
    refine List.Sublist.append (List.Sublist.refl _) ?_
    simp only [variables_eq_filter, List.map_map]
    exact List.filter_sublist.flatMap _
  have huniforms := (UniformBlock.uniforms_foldl (published g ids) { name := publicUniforms }).2.1
  have hnames : ((publicBlock g ids).uniforms.map Uniform.variableName).Sublist _ := (huniforms.map _).trans hpublished
  refine (hnames.append (List.Sublist.refl (g.outputSockets.map Input.variableName))).subperm.trans ?_
  rw [List.append_assoc, Graph.interfaceNames, List.append_assoc]
  exact (List.perm_append_comm.append_left _).subperm

theorem names_given (ids : List NodeId) : ((given ⟨l, f, g⟩ ids).map Declaration.name).Subperm g.interfaceNames := by
  have hnames := names_publicBlock g ids
  cases l with
  | osl => simpa [given, Function.comp_def, Uniform.declaration, socketDeclaration] using hnames
  | mdl =>
    simpa [given, Function.comp_def, Uniform.declaration] using (List.sublist_append_left _ _).subperm.trans hnames
  | glsl =>
    simpa [given, Function.comp_def, socketDeclaration] using (List.sublist_append_right _ _).subperm.trans hnames

/-- How the code of a graph is laid out, given a property of the scopes of its functions and the nodes that its outputs
need. The parameters are declared together, and so is the body of the graph. -/
structure LaidOut (ok : List Declaration → Prop) (e : Surroundings) (ids : List NodeId) (s : Stage) : Prop where
  blocks : s.blocks = publicBlock e.graph ids :: lights e.language
  program : Program ok s.code (outside e.language s.blocks)
  parameters : ∃ rest, (publicBlock e.graph ids).uniforms.map Uniform.declaration ++ rest ∈ s.code.scopes
  body : ∃ given, given ++ e.bodyDeclarations ∈ s.code.scopes
  filled : ∀ u ∈ (publicBlock e.graph ids).uniforms, u.type.isArray = true → u.declaration.length ≠ some 0

/-- **The scopes of a shader.** -/
theorem laidOut_shader
    (hok : ∀ h, g.Includes h → ∀ scope, Surroundings.IsScope ⟨l, o.floatFormat, h⟩ scope → ok scope)
    (hs : s.code = [] ∧ s.blocks = []) (h : shader l o name g s = .ok a s') :
    ∃ ids, g.reachable = .ok ids ∧ LaidOut ok ⟨l, o.floatFormat, g⟩ ids s' := by
  obtain ⟨⟨ids, front, middle, hids, hlisted, hfunctions, hlast, hfilled⟩⟩ := parts_shader hs.2 h
  obtain ⟨library, functions, rfl, hlibrary⟩ :=
    program_defineFunctions (fun name own h hused => hok h (.inner hused)) hfunctions
  obtain ⟨main, identifiers, rfl, hmain⟩ := hlast (emits_body_scope (hok g .own) true)
  have hfunction := hmain.hasFunction
  have hfront : Program ok (front ++ library) (outside l (publicBlock g ids :: lights l)) := by
    simpa using Program.outside hlisted.layered hlibrary
  have hscope := hok g .own _ (Surroundings.isScope_body (names_given (l := l) (f := o.floatFormat) ids))
  have hprogram : Program ok (front ++ library ++ main) (outside l (publicBlock g ids :: lights l)) := by
    simpa using hfront.append (.of_function hfunction hscope)
  have hmem := hfunction.mem_scopes hfront
  refine ⟨ids, hids, rfl, by simpa [hs.1] using hprogram, ?_, ⟨_, by simpa [hs.1] using hmem⟩, hfilled⟩
  cases l with
  | osl => exact ⟨_, by simpa [hs.1, given] using hmem⟩
  | mdl => exact ⟨_, by simpa [hs.1, given] using hmem⟩
  | glsl =>
    obtain ⟨inner, hscopes, -⟩ := hprogram.scopes
    refine ⟨(lights .glsl).flatMap UniformBlock.uniforms |>.map Uniform.declaration, ?_⟩
    simp only [hs.1, List.nil_append] at hscopes ⊢
    rw [hscopes]
    simp [outside]

end Emit

namespace Shader

def surroundings (r : Request) (g : Graph) : Surroundings := ⟨r.generator.language, r.options.floatFormat, g⟩

/-- A scope in the code of a shader is one of its graph or of the graph of a compound that it uses. -/
def IsScope (r : Request) (shader : Shader) (scope : List Declaration) : Prop :=
  ∃ g, shader.graph.Includes g ∧ (surroundings r g).IsScope scope

theorem laidOut_generate {r : Request} {name : String} {element : Element} {s s' : BuildState} {shader : Shader}
    (h : generate r name element s = .ok shader s') :
    ∃ t ids, element.build r s = .ok shader.graph t ∧ shader.graph.reachable = .ok ids ∧
      Emit.LaidOut (shader.IsScope r) (surroundings r shader.graph) ids shader.stage := by
  obtain ⟨g, t, hbuild, hwrite⟩ := state_bind_eq_ok.mp h
  obtain rfl := graph_of_write hwrite
  have hok : ∀ g, shader.graph.Includes g → ∀ scope, (surroundings r g).IsScope scope → shader.IsScope r scope :=
    fun g hg scope hscope => ⟨g, hg, hscope⟩
  obtain ⟨ids, hids, hlaid⟩ := Emit.laidOut_shader hok ⟨rfl, rfl⟩ (write_spec hwrite)
  exact ⟨t, ids, hbuild, hids, hlaid⟩

end Shader
end ShadeGraph
