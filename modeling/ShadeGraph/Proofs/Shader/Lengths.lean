import ShadeGraph.Proofs.Graph.Finished
import ShadeGraph.Proofs.Shader.Scopes

/-!
# The lengths of arrays

A parameter is declared with the length of its default value, and constants and dots declare what they copy with the
length of their own literal. An input that is connected has no literal, so that a copy of an array that arrives over a
connection is declared without elements, however many of them the array has.
-/

namespace ShadeGraph

open Function

/-- The value that reaches an input: its literal, the default value of the input socket it reads, or what reaches the
input whose copy it reads. -/
inductive Graph.Reaches (g : Graph) : Input → Value → Prop
  | literal {i : Input} {v : Value} (free : i.source = none) (value : i.value = some v) : g.Reaches i v
  | socket {i : Input} {v : Value} {k : Nat} {o : Output} (source : i.source = some (.socket k))
      (whole : i.channels = none) (known : g.inputSockets[k]? = some o) (value : o.value = some v) : g.Reaches i v
  | copy {i j : Input} {v : Value} {n : Node} {k : Nat} (source : i.source = some (.ofNode n.id k))
      (whole : i.channels = none) (mem : n ∈ g.nodes) (copied : n.copied? = some j) (reach : g.Reaches j v) :
      g.Reaches i v

/-- The value that reaches an input over fewer connections than given. -/
def Graph.reached? (g : Graph) : Nat → Input → Option Value
  | 0, _ => none
  | fuel + 1, i =>
    match i.source, i.channels with
    | none, _ => i.value
    | some ⟨.graph, k⟩, none => g.inputSockets[k]?.bind Output.value
    | some ⟨.node id, _⟩, none => ((g.node? id).bind Node.copied?).bind (g.reached? fuel)
    | some _, some _ => none

theorem Graph.reaches_of_reached? {g : Graph} : ∀ {fuel : Nat} {i : Input} {v : Value},
    g.reached? fuel i = some v → g.Reaches i v := by
  intro fuel
  induction fuel with
  | zero => exact fun h => nomatch h
  | succ fuel ih =>
    intro i v h
    rw [reached?] at h
    split at h
    · rename_i hsource
      exact .literal hsource h
    · rename_i k hsource hwhole
      obtain ⟨o, ho, hv⟩ := Option.bind_eq_some_iff.mp h
      exact .socket hsource hwhole ho hv
    · rename_i id k hsource hwhole
      obtain ⟨j, hj, hv⟩ := Option.bind_eq_some_iff.mp h
      obtain ⟨n, hn, hcopied⟩ := Option.bind_eq_some_iff.mp hj
      obtain rfl := Graph.id_of_node? hn
      exact .copy hsource hwhole (Graph.mem_of_node? hn) hcopied (ih hv)
    · cases h

theorem Value.exists_arrayLength {v : Value} (h : v.type.isArray = true) : ∃ count, v.arrayLength? = some count := by
  cases v with
  | integerArray elements => exact ⟨_, rfl⟩
  | floatArray elements => exact ⟨_, rfl⟩
  | _ => cases h

/-! ## Copies -/

namespace Node

variable {n : Node} {i : Input} {o : Output}

theorem mem_of_copied? (h : n.copied? = some i) : i ∈ n.inputs := by
  unfold copied? at h
  split at h
  · exact List.mem_of_find?_eq_some h
  · exact List.mem_of_find?_eq_some h
  · cases h

theorem declarations_of_copied? (e : Surroundings) (h : n.copied? = some i) :
    e.declarations n = n.outputs.map n.declaration := by
  have hn : n.implementation ≠ .procedural .blur := by
    intro hblur
    simp [copied?, hblur] at h
  rw [Surroundings.declarations, Surroundings.helpers_of_not_blur hn, List.nil_append]

theorem declaration_of_isArray (h : n.copied? = some i) (ho : o.type.isArray = true) :
    n.declaration o = ⟨o.variableName, some ((i.value.bind Value.arrayLength?).getD 0)⟩ := by
  simp [declaration, h, ho]

end Node

theorem Input.Proper.length_of_connected {i : Input} (hi : i.Proper) (h : i.source ≠ none) :
    (i.value.bind Value.arrayLength?).getD 0 = 0 := by
  rw [hi.bare (Option.isSome_iff_ne_none.mpr h)]
  rfl

/-- The length of the literal of an input is that of the array that reaches it exactly if the input is not connected, or
if the array has no elements. -/
theorem Graph.Reaches.length_iff {g : Graph} {i : Input} {v : Value} {length : Nat} (h : g.Reaches i v)
    (hi : i.Proper) (hlength : v.arrayLength? = some length) :
    (i.value.bind Value.arrayLength?).getD 0 = length ↔ i.source = none ∨ length = 0 := by
  cases h with
  | literal free value => simp [free, value, hlength]
  | socket source =>
    rw [hi.length_of_connected (by simp [source])]
    simp [source, eq_comm]
  | copy source =>
    rw [hi.length_of_connected (by simp [source])]
    simp [source, eq_comm]

/-! ## Parameters -/

theorem Graph.Finished.type_of_published {g : Graph} (hg : g.Finished) {ids : List NodeId} {u : Uniform}
    (hu : u ∈ (Emit.publicBlock g ids).uniforms) {v : Value} (hv : u.value = some v) : v.type = u.type := by
  have huniforms := (UniformBlock.uniforms_foldl (Emit.published g ids) { name := publicUniforms }).2.1
  have hpublished : u ∈ Emit.published g ids := by simpa using huniforms.subset hu
  rcases List.mem_append.mp hpublished with hu | hu
  · obtain ⟨o, ho, rfl⟩ := List.mem_map.mp hu
    obtain ⟨k, hk⟩ := List.mem_iff_getElem?.mp ho
    exact hg.proper.presets (k := k) hk v hv
  · obtain ⟨n, hn, hu⟩ := List.mem_flatMap.mp hu
    obtain ⟨i, hi, rfl⟩ := List.mem_map.mp hu
    exact (hg.proper_of_mem (List.mem_of_mem_filter hn) (List.mem_of_mem_filter hi)).typed v hv

theorem Emit.LaidOut.length_parameter {ok : List Declaration → Prop} {e : Surroundings} {ids : List NodeId} {s : Stage}
    (h : LaidOut ok e ids s) (hg : e.graph.Finished) {u : Uniform} (hu : u ∈ (publicBlock e.graph ids).uniforms)
    (htype : u.type.isArray = true) {v : Value} (hv : u.value = some v) :
    ∃ count, 1 ≤ count ∧ v.arrayLength? = some count ∧ u.declaration.length = some count := by
  obtain ⟨count, hcount⟩ : ∃ count, v.arrayLength? = some count :=
    Value.exists_arrayLength (by rwa [hg.type_of_published hu hv])
  have hlength : u.declaration.length = some count := by simp [Uniform.declaration, hv, hcount]
  have hfilled := h.filled u hu htype
  refine ⟨count, Nat.one_le_iff_ne_zero.mpr fun hzero => hfilled ?_, hcount, hlength⟩
  rw [hlength, hzero]

theorem Emit.LaidOut.eq_publicBlock {ok : List Declaration → Prop} {e : Surroundings} {ids : List NodeId} {s : Stage}
    (h : LaidOut ok e ids s) {b : UniformBlock} (hb : b ∈ s.blocks) (hname : b.name = publicUniforms) :
    b = publicBlock e.graph ids := by
  rw [h.blocks] at hb
  rcases List.mem_cons.mp hb with rfl | hb
  · rfl
  · cases hlanguage : e.language with
    | osl => simp [hlanguage, lights] at hb
    | mdl => simp [hlanguage, lights] at hb
    | glsl =>
      rw [hlanguage, lights, List.mem_singleton] at hb
      subst hb
      exact absurd hname (by decide)

namespace Shader

/-- **The lengths of the arrays that a shader declares.** A parameter is declared with the length of its default value,
which is at least one, and without a length if it has none. The other scopes hold what the nodes of the graph and of its
compounds declare. A node that copies an array declares it with the length of its literal. With a connection this is
zero, and so the length is wrong if an array with elements arrives. -/
theorem array_lengths_iff {r : Request} {name : String} {element : Element} {s s' : BuildState} {shader : Shader}
    (hpick : Injective s.ids.pick) (h : generate r name element s = .ok shader s') :
    (∀ b ∈ shader.stage.blocks, b.name = publicUniforms →
      (∃ rest, b.uniforms.map Uniform.declaration ++ rest ∈ shader.stage.code.scopes) ∧
      ∀ u ∈ b.uniforms, u.type.isArray = true →
        (u.value = none → u.declaration.length = none) ∧
        ∀ v, u.value = some v →
          ∃ count, 1 ≤ count ∧ v.arrayLength? = some count ∧ u.declaration.length = some count) ∧
    (∃ given, given ++ (surroundings r shader.graph).bodyDeclarations ∈ shader.stage.code.scopes) ∧
    (∃ inner, shader.stage.code.scopes = inner ++ [Emit.outside r.generator.language shader.stage.blocks] ∧
      ∀ scope ∈ inner, shader.IsScope r scope) ∧
    ∀ g, shader.graph.Includes g → ∀ n ∈ g.nodes, ∀ i, n.copied? = some i →
      (surroundings r g).declarations n = n.outputs.map n.declaration ∧
      ∀ o ∈ n.outputs, o.type.isArray = true → ∃ count, n.declaration o = ⟨o.variableName, some count⟩ ∧
        (i.source ≠ none → count = 0) ∧
        ∀ v length, g.Reaches i v → v.arrayLength? = some length → (count = length ↔ i.source = none ∨ length = 0) := by
  obtain ⟨t, ids, hbuild, -, hlaid⟩ := laidOut_generate h
  have hfinished := Element.finished_build hpick hbuild
  refine ⟨fun b hb hname => ?_, hlaid.body, hlaid.program.scopes, fun g hg n hn i hi => ?_⟩
  · obtain rfl := hlaid.eq_publicBlock hb hname
    refine ⟨hlaid.parameters, fun u hu htype => ⟨fun hnone => by simp [Uniform.declaration, hnone], fun v hv => ?_⟩⟩
    exact hlaid.length_parameter hfinished.own hu htype hv
  · refine ⟨Node.declarations_of_copied? _ hi, fun o _ htype => ?_⟩
    have hproper : i.Proper := (hfinished.includes hg).proper_of_mem hn (Node.mem_of_copied? hi)
    exact ⟨_, Node.declaration_of_isArray hi htype, hproper.length_of_connected,
      fun v length hreach => hreach.length_iff hproper⟩

/-- Arrays that are written down, copied and read from inputs, one of which has no default value. -/
def spectrum : Request :=
  { generator := { language := .osl }
    document :=
      { nodedefs :=
          [{ name := "ND_constant_floatarray", category := "constant"
             inputs := [{ name := "value", typeName := "floatarray" }]
             outputs := [{ name := "out", typeName := "floatarray" }] },
            { name := "ND_dot_floatarray", category := "dot"
              inputs := [{ name := "in", typeName := "floatarray" }]
              outputs := [{ name := "out", typeName := "floatarray" }] }] } }

def samples : NodeGraph :=
  { name := "samples"
    inputs := [{ name := "ramp", typeName := "floatarray", value := some "1, 2" },
      { name := "curve", typeName := "floatarray" }]
    nodes :=
      [{ name := "three", category := "constant", typeName := "floatarray"
         inputs := [{ name := "value", typeName := "floatarray", value := some "1, 2, 3" }] },
        { name := "passed", category := "dot", typeName := "floatarray"
          inputs := [{ name := "in", typeName := "floatarray", nodeName := some "three" }] },
        { name := "taken", category := "dot", typeName := "floatarray"
          inputs := [{ name := "in", typeName := "floatarray", interfaceName := some "ramp" }] }]
    outputs := [{ name := "out", typeName := "floatarray", nodeName := "passed" },
      { name := "other", typeName := "floatarray", nodeName := "taken" }] }

/-- The input without a default value is declared without a length. One dot copies three elements and the other one two,
and both are declared without any. -/
theorem copies_declared_without_elements : Injective ({} : BuildState).ids.pick ∧
    ∃ shader s', generate spectrum "samples" (.graph samples) {} = .ok shader s' ∧
      (∃ rest, [⟨"ramp", some 2⟩, ⟨"curve", none⟩] ++ rest ∈ shader.stage.code.scopes) ∧
      (∃ given, given ++ [⟨"three_out", some 3⟩, ⟨"passed_out", some 0⟩, ⟨"taken_out", some 0⟩] ∈
        shader.stage.code.scopes) ∧
      ∀ length ∈ [2, 3], ∃ n ∈ shader.graph.body, ∃ i, n.copied? = some i ∧
        (∃ v, shader.graph.Reaches i v ∧ v.arrayLength? = some length) ∧
        ∀ o ∈ n.outputs, o.type.isArray = true → ∃ count, n.declaration o = ⟨o.variableName, some count⟩ ∧
          count ≠ length := by
  have hpick : Injective ({} : BuildState).ids.pick := fun _ _ h => congrArg NodeId.index h
  refine ⟨hpick, ?_⟩
  obtain ⟨shader, s', hshader, ⟨b, hb, hname, huniforms⟩, hdeclared, hcopied⟩ :=
    Build.exists_ok_of_check (generate spectrum "samples" (.graph samples)) {}
      (fun shader _ => (∃ b ∈ shader.stage.blocks, b.name = publicUniforms ∧
          b.uniforms.map Uniform.declaration = [⟨"ramp", some 2⟩, ⟨"curve", none⟩]) ∧
        (surroundings spectrum shader.graph).bodyDeclarations =
          [⟨"three_out", some 3⟩, ⟨"passed_out", some 0⟩, ⟨"taken_out", some 0⟩] ∧
        ∀ length ∈ ([2, 3] : List Nat), ∃ n ∈ shader.graph.body, ∃ i ∈ n.copied?, i.source ≠ none ∧
          ∃ v ∈ shader.graph.reached? 2 i, v.arrayLength? = some length)
      (by decide +kernel)
  obtain ⟨hparameters, hbody, -, hcopies⟩ := array_lengths_iff hpick hshader
  rw [hdeclared] at hbody
  refine ⟨shader, s', hshader, huniforms ▸ (hparameters b hb hname).1, hbody, fun length hlengths => ?_⟩
  obtain ⟨n, hn, i, hi, hsource, v, hv, hlength⟩ := hcopied length hlengths
  have hreach : shader.graph.Reaches i v := Graph.reaches_of_reached? hv
  refine ⟨n, hn, i, hi, ⟨v, hreach, hlength⟩, fun o ho htype => ?_⟩
  obtain ⟨count, hcount, hzero, -⟩ := (hcopies _ .own n (shader.graph.body_sublist.subset hn) i hi).2 o ho htype
  have hsome : length ≠ 0 := by
    rintro rfl
    exact absurd hlengths (by decide)
  exact ⟨count, hcount, by rw [hzero hsource]; exact hsome.symm⟩

end Shader
end ShadeGraph
