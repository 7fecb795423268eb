import ShadeGraph.Proofs.Graph.Finished
import ShadeGraph.Proofs.Shader.Scopes

/-!
# Variables that are declared twice

All variables of a graph are named together, so that they differ. Two kinds of names are made outside of this: a blur
that samples a texture declares *helpers*, whose names are that of its output with something added, and the uniform for
the number of lights has a fixed name. Helpers differ among themselves. So a scope declares a variable twice exactly if
one of these names is also the name of a variable of the graph.
-/

namespace ShadeGraph

open Function

/-! ## Names of helpers -/

/-- What is added to the name of an output, behind an underscore, for the helpers of a blur. -/
def helperTails : List String :=
  "texcoord" :: ((List.range 9).map (fun k => "sample" ++ toString k) ++ ["samples", "weights"])

def helperName (x tail : String) : String := x ++ ("_" ++ tail)

theorem Output.names_helpers (o : Output) :
    o.helpers.map Declaration.name = helperTails.map (helperName o.variableName) := by
  have hsample (k : Nat) : "_sample" ++ k.repr = "_" ++ ("sample" ++ k.repr) := by
    rw [← String.append_assoc]
    rfl
  simp [helpers, helperTails, helperName, coordinateName, sampleName, samplesName, weightsName, String.append_assoc,
    hsample]

theorem helperTails_nodup : helperTails.Nodup := by decide +kernel

theorem underscore_notMem_helperTails : ∀ tail ∈ helperTails, '_' ∉ tail.toList := by decide +kernel

theorem split_last_inj {α : Type} {a : α} {l l' tail tail' : List α} (h : l ++ a :: tail = l' ++ a :: tail')
    (htail : a ∉ tail) (htail' : a ∉ tail') : l = l' ∧ tail = tail' := by
  rcases List.append_eq_append_iff.mp h with ⟨m, rfl, hm⟩ | ⟨m, rfl, hm⟩
  · cases m with
    | nil => simpa using hm
    | cons b m =>
      obtain ⟨-, rfl⟩ := List.cons.inj hm
      exact absurd (by simp) htail
  · cases m with
    | nil => simpa using hm.symm
    | cons b m =>
      obtain ⟨-, rfl⟩ := List.cons.inj hm
      exact absurd (by simp) htail'

theorem helperName_inj {x y tail tail' : String} (htail : tail ∈ helperTails) (htail' : tail' ∈ helperTails)
    (h : helperName x tail = helperName y tail') : x = y ∧ tail = tail' := by
  have hlist := congrArg String.toList h
  simp only [helperName, String.toList_append] at hlist
  obtain ⟨hx, ht⟩ := split_last_inj hlist (underscore_notMem_helperTails tail htail)
    (underscore_notMem_helperTails tail' htail')
  exact ⟨String.toList_inj.mp hx, String.toList_inj.mp ht⟩

theorem nodup_helperNames {names : List String} (h : names.Nodup) :
    (names.flatMap fun x => helperTails.map (helperName x)).Nodup := by
  refine List.nodup_flatMap.mpr ⟨fun x _ => ?_, h.imp fun {x y} hne z hx hy => ?_⟩
  · exact helperTails_nodup.map_on fun a ha b hb hab => (helperName_inj ha hb hab).2
  · obtain ⟨a, ha, rfl⟩ := List.mem_map.mp hx
    obtain ⟨b, hb, hab⟩ := List.mem_map.mp hy
    exact hne (helperName_inj hb ha hab).1.symm

/-! ## Scopes -/

theorem Graph.variables_perm (g : Graph) :
    g.variables.Perm (g.interfaceNames ++ g.nodes.flatMap fun n => n.outputs.map Output.variableName) := by
  rw [Graph.variables, interfaceNames, List.append_assoc (_ ++ _)]
  refine List.Perm.append_left _ ?_
  exact (List.flatMap_append_perm g.nodes _ _).symm.trans List.perm_append_comm

namespace Surroundings

variable {e : Surroundings} {n : Node} {nodes : List Node} {parameters : List Declaration}

theorem helpers_cases (e : Surroundings) (n : Node) :
    e.helpers n = [] ∨ ∃ o, n.outputs = [o] ∧ e.helpers n = o.helpers := by
  unfold helpers
  split
  · rename_i o input _ houtputs _
    split
    · exact .inr ⟨o, houtputs, rfl⟩
    · exact .inl rfl
  · exact .inl rfl

/-- The variables that the helpers of a node are named after. -/
def blurred (e : Surroundings) (n : Node) : List String :=
  if (e.helpers n).isEmpty then [] else n.outputs.map Output.variableName

theorem blurred_sublist (e : Surroundings) (n : Node) : (e.blurred n).Sublist (n.outputs.map Output.variableName) := by
  unfold blurred
  split
  · exact List.nil_sublist _
  · exact List.Sublist.refl _

theorem names_helpers (e : Surroundings) (n : Node) :
    (e.helpers n).map Declaration.name = (e.blurred n).flatMap fun x => helperTails.map (helperName x) := by
  rcases e.helpers_cases n with hnone | ⟨o, houtputs, hhelpers⟩
  · simp [blurred, hnone]
  · have hsome : o.helpers.isEmpty = false := rfl
    simp [blurred, hhelpers, hsome, houtputs, Output.names_helpers]

theorem names_declarations (e : Surroundings) (n : Node) :
    (e.declarations n).map Declaration.name =
      (e.helpers n).map Declaration.name ++ n.outputs.map Output.variableName := by
  have hname (o : Output) : (n.declaration o).name = o.variableName := by
    unfold Node.declaration
    split <;> rfl
  simp [declarations, comp_def, hname]

theorem nodup_assigned (hg : e.graph.variables.Nodup) (h : e.HasScope parameters nodes) :
    (parameters.map Declaration.name ++ nodes.flatMap fun n => n.outputs.map Output.variableName).Nodup := by
  have hsub : (parameters.map Declaration.name ++ nodes.flatMap fun n => n.outputs.map Output.variableName).Subperm
      e.graph.variables := by
    refine List.Subperm.trans ?_ e.graph.variables_perm.symm.subperm
    exact h.names.append (h.sublist.flatMap _).subperm
  obtain ⟨names, hperm, hsublist⟩ := hsub
  exact hperm.nodup_iff.mp (hg.sublist hsublist)

/-- **When a scope declares nothing twice**: if no helper is named like a parameter or like an output. -/
theorem nodup_scope_iff (hg : e.graph.variables.Nodup) (h : e.HasScope parameters nodes) :
    ((parameters ++ nodes.flatMap e.declarations).map Declaration.name).Nodup ↔
      ∀ n ∈ nodes, ∀ d ∈ e.helpers n, d.name ∉ parameters.map Declaration.name ∧
        ∀ m ∈ nodes, ∀ o ∈ m.outputs, o.variableName ≠ d.name := by
  have hassigned := nodup_assigned hg h
  have hhelpers : (nodes.flatMap fun n => (e.helpers n).map Declaration.name).Nodup := by
    simp only [names_helpers, ← List.flatMap_assoc]
    refine nodup_helperNames (hassigned.of_append_right.sublist ?_)
    exact List.Sublist.flatMap_right _ fun n _ => e.blurred_sublist n
  have hperm : ((parameters ++ nodes.flatMap e.declarations).map Declaration.name).Perm
      ((nodes.flatMap fun n => (e.helpers n).map Declaration.name) ++
        (parameters.map Declaration.name ++ nodes.flatMap fun n => n.outputs.map Output.variableName)) := by
    rw [List.map_append, List.map_flatMap]
    simp only [names_declarations]
    refine (List.Perm.append_left _ (List.flatMap_append_perm nodes _ _).symm).trans ?_
    exact List.perm_append_comm_assoc _ _ _
  rw [hperm.nodup_iff, List.nodup_append]
  constructor
  · rintro ⟨-, -, hapart⟩ n hn d hd
    have hd : d.name ∈ nodes.flatMap fun n => (e.helpers n).map Declaration.name :=
      List.mem_flatMap.mpr ⟨n, hn, List.mem_map_of_mem hd⟩
    refine ⟨fun hmem => hapart _ hd _ (List.mem_append_left _ hmem) rfl, fun m hm o ho heq => ?_⟩
    exact hapart _ hd _ (List.mem_append_right _ (List.mem_flatMap.mpr ⟨m, hm, List.mem_map_of_mem ho⟩)) heq.symm
  · intro hapart
    refine ⟨hhelpers, hassigned, ?_⟩
    rintro _ hhelper x hx rfl
    obtain ⟨n, hn, hname⟩ := List.mem_flatMap.mp hhelper
    obtain ⟨d, hd, rfl⟩ := List.mem_map.mp hname
    rcases List.mem_append.mp hx with hx | hx
    · exact (hapart n hn d hd).1 hx
    · obtain ⟨m, hm, hx⟩ := List.mem_flatMap.mp hx
      obtain ⟨o, ho, heq⟩ := List.mem_map.mp hx
      exact (hapart n hn d hd).2 m hm o ho heq

end Surroundings

/-! ## Uniforms -/

/-- **When GLSL declares no uniform twice**: if no parameter is named like the number of lights. -/
theorem Emit.nodup_outside_iff {l : Language} {g : Graph} {ids : List NodeId} {blocks : List UniformBlock}
    (hblocks : blocks = publicBlock g ids :: lights l) :
    ((outside l blocks).map Declaration.name).Nodup ↔ l = .glsl →
      ∀ b ∈ blocks, b.name = publicUniforms → ∀ u ∈ b.uniforms, u.variableName ≠ lightCount.variableName := by
  subst hblocks
  cases l with
  | osl => exact iff_of_true List.nodup_nil (by simp)
  | mdl => exact iff_of_true List.nodup_nil (by simp)
  | glsl =>
    obtain ⟨hname, -, hnodup, -⟩ := UniformBlock.uniforms_foldl (published g ids) { name := publicUniforms }
    have hnodup : ((publicBlock g ids).uniforms.map Uniform.variableName).Nodup := hnodup List.nodup_nil
    have hname : (publicBlock g ids).name = publicUniforms := hname
    have hother : lightData ≠ publicUniforms := by decide
    simp [outside, lights, Uniform.declaration, comp_def, List.nodup_append, hnodup, hname, hother]

namespace Shader

/-- **What is declared twice in one scope.** The scopes of a shader hold all that it declares. Outside of all functions,
where GLSL declares its uniforms, a name is declared twice exactly if a parameter is named like the number of lights.
Any other scope is the body of a function or a branch of a conditional in the code of a graph, and declares a name twice
exactly if a helper of a blur is named like a parameter or like an output of a node there. -/
theorem declared_once_iff {r : Request} {name : String} {element : Element} {s s' : BuildState} {shader : Shader}
    (hpick : Injective s.ids.pick) (h : generate r name element s = .ok shader s') :
    (shader.stage.code.scopes.flatten.map Declaration.name).Perm shader.stage.code.declared ∧
    ∃ inner, shader.stage.code.scopes = inner ++ [Emit.outside r.generator.language shader.stage.blocks] ∧
      (((Emit.outside r.generator.language shader.stage.blocks).map Declaration.name).Nodup ↔
        (r.generator.language = .glsl → ∀ b ∈ shader.stage.blocks, b.name = publicUniforms → ∀ u ∈ b.uniforms,
          u.variableName ≠ lightCount.variableName)) ∧
      ∀ scope ∈ inner, ∃ g parameters nodes, shader.graph.Includes g ∧ (surroundings r g).HasScope parameters nodes ∧
        scope = parameters ++ nodes.flatMap (surroundings r g).declarations ∧
        ((scope.map Declaration.name).Nodup ↔ ∀ n ∈ nodes, ∀ d ∈ (surroundings r g).helpers n,
          d.name ∉ parameters.map Declaration.name ∧ ∀ m ∈ nodes, ∀ o ∈ m.outputs, o.variableName ≠ d.name) := by
  obtain ⟨t, ids, hbuild, -, hlaid⟩ := laidOut_generate h
  obtain ⟨inner, hscopes, hinner⟩ := hlaid.program.scopes
  refine ⟨Code.names_scopes _, inner, hscopes, Emit.nodup_outside_iff hlaid.blocks, fun scope hscope => ?_⟩
  obtain ⟨g, hg, parameters, nodes, hhas, rfl⟩ := hinner scope hscope
  have hfinished := (Element.finished_build hpick hbuild).includes hg
  exact ⟨g, parameters, nodes, hg, hhas, rfl, Surroundings.nodup_scope_iff hfinished.named hhas⟩

/-- A lantern with an input for its number of lights. -/
def street : Request :=
  { generator := { language := .glsl }
    document :=
      { nodedefs :=
          [{ name := "ND_dot_integer", category := "dot"
             inputs := [{ name := "in", typeName := "integer", value := some "0" }]
             outputs := [{ name := "out", typeName := "integer" }] }] } }

def lantern : NodeGraph :=
  { name := "lantern"
    inputs := [{ name := "u_numActiveLightSources", typeName := "integer", value := some "3" }]
    nodes :=
      [{ name := "count", category := "dot", typeName := "integer"
         inputs := [{ name := "in", typeName := "integer", interfaceName := some "u_numActiveLightSources" }] }]
    outputs := [{ name := "out", typeName := "integer", nodeName := "count" }] }

/-- A blurred image, looked up at a coordinate whose variable is named like a helper. -/
def gallery : Request :=
  { generator := { language := .osl }
    document :=
      { nodedefs :=
          [{ name := "ND_image_color3", category := "image"
             inputs := [{ name := "file", typeName := "filename" }, { name := "texcoord", typeName := "vector2" }]
             outputs := [{ name := "out", typeName := "color3" }] },
            { name := "ND_blur_color3", category := "blur"
              inputs := [{ name := "in", typeName := "color3" },
                { name := "size", typeName := "float", value := some "0.0" },
                { name := "filtertype", typeName := "string", value := some "gaussian" }]
              outputs := [{ name := "out", typeName := "color3" }] },
            { name := "ND_dot_vector2", category := "dot"
              inputs := [{ name := "in", typeName := "vector2", value := some "0.5, 0.5" }]
              outputs := [{ name := "texcoord", typeName := "vector2" }] }]
        sources :=
          [{ name := "IM_image_color3", nodedef := "ND_image_color3", language := "osl", file := some "image.osl"
             function := some "image_color3", source := some "" }] } }

def mural : NodeGraph :=
  { name := "mural"
    nodes :=
      [{ name := "soft_out", category := "dot", typeName := "vector2" },
        { name := "image", category := "image", typeName := "color3"
          inputs := [{ name := "file", typeName := "filename", value := some "wall.png" },
            { name := "texcoord", typeName := "vector2", nodeName := some "soft_out" }] },
        { name := "soft", category := "blur", typeName := "color3"
          inputs := [{ name := "in", typeName := "color3", nodeName := some "image" }] }]
    outputs := [{ name := "out", typeName := "color3", nodeName := "soft" }] }

/-- The lantern declares the number of lights twice, and a helper of the blur is named like the coordinate. -/
theorem names_declared_twice : Injective ({} : BuildState).ids.pick ∧
    (∃ shader s', generate street "lantern" (.graph lantern) {} = .ok shader s' ∧
      ∃ scope ∈ shader.stage.code.scopes, ¬ (scope.map Declaration.name).Nodup) ∧
    ∃ shader s', generate gallery "mural" (.graph mural) {} = .ok shader s' ∧
      ∃ scope ∈ shader.stage.code.scopes, ¬ (scope.map Declaration.name).Nodup ∧
        ∃ g parameters nodes, shader.graph.Includes g ∧ (surroundings gallery g).HasScope parameters nodes ∧
          ∃ n ∈ nodes, (surroundings gallery g).helpers n ≠ [] := by
  have hpick : Injective ({} : BuildState).ids.pick := fun _ _ h => congrArg NodeId.index h
  refine ⟨hpick, ?_, ?_⟩
  · obtain ⟨shader, s', hshader, b, hb, hname, u, hu, hlights⟩ :=
      Build.exists_ok_of_check (generate street "lantern" (.graph lantern)) {}
        (fun shader _ => ∃ b ∈ shader.stage.blocks, b.name = publicUniforms ∧
          ∃ u ∈ b.uniforms, u.variableName = lightCount.variableName)
        (by decide +kernel)
    obtain ⟨-, inner, hscopes, houtside, -⟩ := declared_once_iff hpick hshader
    refine ⟨shader, s', hshader, _, by rw [hscopes]; exact List.mem_append_right _ List.mem_cons_self, ?_⟩
    exact fun hnodup => houtside.mp hnodup rfl b hb hname u hu hlights
  · obtain ⟨shader, s', hshader, scope, hscope, htwice⟩ :=
      Build.exists_ok_of_check (generate gallery "mural" (.graph mural)) {}
        (fun shader _ => ∃ scope ∈ shader.stage.code.scopes, ¬ (scope.map Declaration.name).Nodup)
        (by decide +kernel)
    obtain ⟨-, inner, hscopes, -, hinner⟩ := declared_once_iff hpick hshader
    refine ⟨shader, s', hshader, scope, hscope, htwice, ?_⟩
    rw [hscopes] at hscope
    rcases List.mem_append.mp hscope with hscope | hscope
    · obtain ⟨g, parameters, nodes, hg, hhas, -, hiff⟩ := hinner scope hscope
      refine ⟨g, parameters, nodes, hg, hhas, ?_⟩
      by_contra hnone
      push Not at hnone
      refine htwice (hiff.mpr fun n hn d hd => ?_)
      rw [hnone n hn] at hd
      exact absurd hd List.not_mem_nil
    · obtain rfl := List.mem_singleton.mp hscope
      exact absurd List.nodup_nil htwice

end Shader
end ShadeGraph
