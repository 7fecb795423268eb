import ShadeGraph.Proofs.Graph.Build
import ShadeGraph.Proofs.Shader.Layout

/-!
# Generated source code is well scoped

A graph that has been scheduled, scoped and named gives well scoped source code in every language: the functions of its
compounds read their own parameters, and the last function reads its parameters or the uniforms. Only in MDL, the result
of a closure or a material stands behind the block of a `let`.
-/

namespace ShadeGraph

open Code

namespace Code

variable {V F : String → Prop} {lets : Bool} {code : Code}

theorem Shaped.isBody {new : List String}
    (h : Shaped (Sound V · new) (Every (Token.Within (fun x => V x ∨ x ∈ new) F)) lets code) : IsBody lets V code := by
  cases h with
  | block hbody before behind => exact isBody_braced hbody before behind
  | result hbody hresult indent before behind =>
    refine isBody_let hbody (hresult.mono fun t ht => ?_) indent before behind
    cases t <;> first | exact ht | trivial

theorem HasDefinition.isFunction {name : String} {given : List Declaration}
    (h : HasDefinition name given (IsBody lets V) code) :
    ∃ lead rest, code = lead ++ .defines name :: rest ∧ Flat noVariable lead ∧
      ∀ uniforms, (∀ x, V x → x ∈ uniforms ∨ x ∈ given.map Declaration.name) → IsFunction lets uniforms rest := by
  obtain ⟨indent, start, lines, body, rfl, hlines, hbody⟩ := h
  refine ⟨[.text indent, .text start], (lines ++ [.text "\n"]) ++ body, rfl, (every_plain start).text indent, ?_⟩
  intro uniforms huniforms
  refine hbody uniforms lines hlines.neutral.of_neutral ?_
  rwa [hlines.layered.declared_eq]

end Code

namespace Emit

variable {V : String → Prop} {e : Surroundings} {s s' : Stage} {a : Unit} {g : Graph} {o : Options} {l : Language}
  {f : FloatFormat}

theorem emits_body_scoped (hg : e.graph.Writable) (hsockets : ∀ s ∈ e.graph.inputSockets, V s.variableName)
    (hpublished : ∀ m ∈ e.graph.nodes, e.graph.Feeds m.id → ∀ i ∈ m.inputs, i.variableName ≠ "" → V i.variableName)
    (wrap : Bool) : Emits (body e wrap) fun _ c => IsBody (hasLets e.language) V c := by
  obtain ⟨new, hcalls, hroots⟩ := Surroundings.runs_callAll hg hsockets hpublished
  exact (emits_body Runs.tracks hcalls hroots wrap).mono fun _ c hc => hc.isBody

/-- **The functions of all compounds inside of a graph are well scoped.** -/
theorem closed_defineFunctions (hg : g.Generable) (h : defineFunctions l f g s = .ok a s') :
    Grown (Closed (hasLets l)) s s' := by
  refine grown_defineFunctions (U := fun how => ∀ name own h, how = .compound name own h → h.Throughout Graph.Callable)
    Closed.nil Closed.append ?_ ?_ ?_ _ g rfl (fun n hn _ => hg.inner n hn) s a s' h
  · intro name own g hU n hn _ name' own' h heq
    exact (hU name own g rfl).inside hn heq
  · exact fun name text => (emits_sourceText name text fun _ => trivial).mono fun _ _ hc => closed_of_flat hc
  · intro name own g hU
    have hcallable := (hU name own g rfl).own
    have hbody := emits_body_scoped (V := fun x => ∃ s ∈ g.inputSockets, s.variableName = x) (e := ⟨l, f, g⟩)
      hcallable.toWritable (fun s hs => ⟨s, hs, rfl⟩)
      (fun m hm _ i hi hname => absurd (hcallable.unpublished m hm i hi) hname) false
    refine (emits_define hbody name own).mono ?_
    rintro _ _ ⟨given, outs, front, rfl, hdefinition, hnames, -⟩
    obtain ⟨lead, rest, rfl, hlead, hfunction⟩ := hdefinition.isFunction
    refine ((closed_of_flat hlead).function own (hfunction [] ?_)).append (closed_of_flat (every_plain "\n"))
    rintro x ⟨s, hs, rfl⟩
    rw [hnames]
    exact Or.inr (List.mem_append_left _ (List.mem_map_of_mem hs))

theorem mem_outside_or_given {ids : List NodeId} {u : Uniform} (hu : u ∈ (publicBlock g ids).uniforms) :
    u.declaration ∈ outside l (publicBlock g ids :: lights l) ∨ u.declaration ∈ given ⟨l, f, g⟩ ids := by
  have hmem := List.mem_map_of_mem (f := Uniform.declaration) hu
  cases l with
  | osl => exact Or.inr (List.mem_append_left _ hmem)
  | mdl => exact Or.inr hmem
  | glsl =>
    rw [outside, List.flatMap_cons, List.map_append]
    exact Or.inl (List.mem_append_left _ hmem)

/-- **The source code of a graph that has been scheduled, scoped and named is well scoped.** -/
theorem wellScoped_shader {name : String} (hg : g.Generable) (hs : s.code = [] ∧ s.blocks = [])
    (h : shader l o name g s = .ok a s') : WellScoped (hasLets l) s'.code := by
  obtain ⟨⟨ids, front, middle, hids, hlisted, hfunctions, hlast, -⟩⟩ := parts_shader hs.2 h
  obtain ⟨library, functions, rfl, hlibrary⟩ := closed_defineFunctions hg hfunctions
  obtain ⟨main, identifiers, rfl, hmain⟩ := hlast (emits_body_scoped (V := g.IsPublic) hg.toWritable
    (fun s hs => Or.inl ⟨s, hs, rfl⟩) (fun m hm hfeeds i hi hname => Or.inr ⟨m, hm, hfeeds, i, hi, hname, rfl⟩) true)
  obtain ⟨lead, rest, rfl, hlead, hfunction⟩ := hmain.isFunction
  have hfront : Flat noVariable front := hlisted.neutral.of_neutral
  have hcode (f : String) : s.code ++ front ++ library ++ (lead ++ .defines f :: rest) =
      (front ++ (library ++ lead)) ++ .defines f :: rest := by simp [hs.1]
  dsimp only
  rw [hcode]
  refine wellScoped_of_function _ ((closed_of_flat hfront).append (hlibrary.append (closed_of_flat hlead)))
    (hfunction _ fun x hx => ?_)
  obtain ⟨u, hu, rfl⟩ := mem_publicBlock hids hx
  refine (mem_outside_or_given hu).imp (fun houtside => ?_) fun hgiven => List.mem_map_of_mem (f := Declaration.name) hgiven
  rw [List.append_assoc]
  refine subset_uniforms hfront.noDefinition ?_
  rw [hlisted.layered.declared_eq]
  exact List.mem_map_of_mem (f := Declaration.name) houtside

end Emit

/-! ## Shaders -/

namespace Shader

variable {r : Request} {name : String} {element : Element} {shader : Shader} {g : Graph} {s s' : BuildState}

theorem Element.generable_build (hr : r.generator.registry.HasConditionals) (hpick : Function.Injective s.ids.pick)
    (h : element.build r s = .ok g s') : g.Generable := by
  cases element with
  | graph d => exact (Build.nodeGraph_spec hr d hpick h).1
  | node n => exact Build.singleNode_spec hr hpick h

/-- In the graph of an element and the graphs inside of it, the depth of calls suffices. -/
theorem Element.call_build (hr : r.generator.registry.HasConditionals) (hpick : Function.Injective s.ids.pick)
    (h : element.build r s = .ok g s') : g.Throughout fun inner => ∀ e : Surroundings, e.graph = inner →
      ∀ n ∈ inner.nodes, e.call n = e.callNode (e.emitBranch e.call) n := by
  have hg := generable_build hr hpick h
  refine .intro g ?_ fun n hn name function inner heq => (hg.inner n hn name function inner heq).mono ?_
  · rintro e rfl n hn
    exact Surroundings.call_eq hg.toInPlace hn
  · rintro inner hinner e rfl n hn
    exact Surroundings.call_eq hinner.toInPlace hn

theorem write_spec (h : write r name g s = .ok shader s') :
    Emit.shader r.generator.language r.options name g { indent := r.options.indent } = .ok () shader.stage := by
  obtain ⟨_, s₁, hmodify, hwrite⟩ := state_bind_eq_ok.mp h
  obtain rfl := state_modify_eq_ok.mp hmodify
  dsimp only at hwrite
  split at hwrite
  · rename_i stage hstage
    cases hwrite
    exact hstage
  · cases hwrite

/-- **Generated source code is well scoped.** Whatever document, element and options a shader is generated from, every
variable that its code reads is a parameter or a uniform of the function where it stands, or has been declared before in
a block that is still open; in MDL, the result behind a `let` may also read what the block of the `let` declares. The
identities of nodes must differ, and the categories with branches must be those of the library. -/
theorem wellScoped_generate (r : Request) (name : String) (element : Element) (s : BuildState)
    (hr : r.generator.registry.HasConditionals) (hpick : Function.Injective s.ids.pick) (shader : Shader)
    (s' : BuildState) (h : generate r name element s = .ok shader s') :
    shader.stage.code.WellScoped (Emit.hasLets r.generator.language) := by
  obtain ⟨g, s₁, hbuild, hwrite⟩ := state_bind_eq_ok.mp h
  exact Emit.wellScoped_shader (element.generable_build hr hpick hbuild) ⟨rfl, rfl⟩ (write_spec hwrite)

/-- The source code that is generated from a document, without any files. -/
def code? (document : Document) (generator : Generator) (name : String) (element : Element) : Option Code :=
  match generate { document, generator } name element {} with
  | .ok shader _ => some shader.stage.code
  | .error _ _ => none

theorem exists_of_mem_code? {document : Document} {generator : Generator} {code : Code}
    (h : code ∈ code? document generator name element) :
    ∃ shader s', generate { document, generator } name element {} = .ok shader s' ∧ shader.stage.code = code := by
  unfold code? at h
  split at h
  · rename_i shader s' hshader
    exact ⟨shader, s', hshader, Option.some.inj h⟩
  · cases h

def numberPin (name : String) : PinDef := { name, typeName := "float" }

/-- An instance of a node whose inputs read other nodes. -/
def numberNode (name category : String) (reads : List (String × String)) : NodeInstance :=
  { name, category, typeName := "float"
    inputs := reads.map fun (input, source) => { name := input, typeName := "float", nodeName := some source } }

/-- A graph with a conditional in a branch of another one; the first node is read in all branches, the second one in a
single branch. -/
def nested : NodeGraph :=
  { name := "nested"
    nodes := [numberNode "outer" "ifgreater" [("value1", "shared"), ("in1", "shared"), ("in2", "inner")],
      numberNode "inner" "ifgreater" [("in1", "shared"), ("in2", "single")],
      numberNode "shared" "one" [], numberNode "single" "one" []]
    outputs := [{ name := "out", typeName := "float", nodeName := "outer" }] }

/-- The definitions of the nodes of `nested`. -/
def branching : Document :=
  { nodedefs := [{ name := "ND_one", category := "one", outputs := [numberPin "out"] },
      { name := "ND_ifgreater", category := "ifgreater"
        inputs := ["value1", "value2", "in1", "in2"].map numberPin
        outputs := [numberPin "out"] }]
    sources := [{
      name := "IM_one", nodedef := "ND_one", language := "osl", file := some "one.inline", source := some "1.0" }] }

theorem wellScoped_nested : (∀ id id', ({} : IdSupply).pick id = ({} : IdSupply).pick id' → id = id') ∧
    Registry.standard.HasConditionals ∧
    ∃ code ∈ code? branching { language := .osl } "nested" (.graph nested), code.WellScoped false := by
  have hpick : Function.Injective ({} : BuildState).ids.pick := fun a b hab => by simpa using hab
  have hsome : (code? branching { language := .osl } "nested" (.graph nested)).isSome = true := by decide +kernel
  obtain ⟨code, hcode⟩ := Option.isSome_iff_exists.mp hsome
  obtain ⟨shader, s', hshader, rfl⟩ := exists_of_mem_code? hcode
  exact ⟨hpick, Registry.hasConditionals_standard, _, hcode,
    wellScoped_generate _ _ _ _ Registry.hasConditionals_standard hpick shader s' hshader⟩

/-- A document with a light that has no inputs. -/
def lamp : Document :=
  { nodedefs := [{ name := "ND_glow", category := "glow", outputs := [{ name := "out", typeName := "EDF" }] }]
    sources := [{
      name := "IM_glow"
      nodedef := "ND_glow"
      language := "mdl"
      file := some "glow.inline"
      source := some "df::diffuse_edf()" }]
    nodes := [{ name := "lamp", category := "glow", typeName := "EDF" }] }

/-- Neither condition can be left out. The result of a light in MDL reads a variable of a block that has been closed,
and with a conditional that is replaced by an expression, the nodes of its branches are never written. -/
theorem reads_unseen_variable :
    (∃ code ∈ code? lamp { language := .mdl } "lamp" (.node { name := "lamp", category := "glow", typeName := "EDF" }),
      ¬ code.WellScoped false) ∧
    ∃ code ∈ code? branching (Generator.register { language := .osl }
      (.template { category := "ifgreater", call := "\x7b\x7bin2\x7d\x7d" }))
      "nested" (.graph nested), ¬ code.WellScoped true := by
  decide +kernel

end Shader
end ShadeGraph
