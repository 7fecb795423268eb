import Mathlib.Data.List.Flatten
import ShadeGraph.Fragment.Basic
import ShadeGraph.Proofs.Graph.Address
import ShadeGraph.Proofs.Graph.Closed
import ShadeGraph.Proofs.Shader.Generate

/-!
# What the host of a fragment can set

The path map of a fragment takes the place of a parameter in the document to the name that the host binds. Of parameters
with the same place it knows only the last one, and the texture of a sampler can have the name of another parameter. But
for these two cases every parameter is bound, each one to a name of its own.
-/

namespace ShadeGraph

open Function

/-! ## The path map -/

namespace Fragment

theorem lookup_replace (paths : List (String × String)) (path name other : String) :
    (paths.map fun p => if p.1 = path then (path, name) else p).lookup other =
      if other = path then (paths.lookup other).map fun _ => name else paths.lookup other := by
  induction paths with
  | nil => simp
  | cons p paths ih =>
    obtain ⟨key, value⟩ := p
    rw [List.map_cons, List.lookup_cons, ih, List.lookup_cons]
    by_cases hother : other = key
    · subst hother
      by_cases hkey : other = path
      · simp [hkey]
      · simp [hkey]
    · have hskip : (other == key) = false := by simpa using hother
      by_cases hkey : key = path
      · subst hkey
        simp [hskip, hother]
      · simp [hskip, hkey]

theorem lookup_insertPath (paths : List (String × String)) (path name other : String) :
    (insertPath paths path name).lookup other = if other = path then some name else paths.lookup other := by
  unfold insertPath
  split
  · rename_i hknown
    rw [lookup_replace]
    by_cases hother : other = path
    · subst hother
      obtain ⟨value, hvalue⟩ : ∃ value, paths.lookup other = some value := by
        rw [← Option.isSome_iff_exists, List.lookup_isSome_iff]
        simpa using hknown
      rw [if_pos rfl, if_pos rfl, hvalue]
      rfl
    · rw [if_neg hother, if_neg hother]
  · rename_i hnew
    rw [List.lookup_append]
    by_cases hother : other = path
    · subst hother
      have hnone : paths.lookup other = none := by
        rw [List.lookup_eq_none_iff]
        simp only [List.any_eq_true, beq_iff_eq, not_exists, not_and] at hnew
        exact fun p hp => by simpa using fun h => hnew p hp h.symm
      simp [hnone]
    · simp [hother]

/-- The last of some parameters at a place in the document. -/
def lastAt (us : List Uniform) (path : String) : Option Uniform := us.reverse.find? fun u => u.path == path

theorem lookup_foldl (path : String) (us : List Uniform) : ∀ paths : List (String × String),
    (us.foldl (fun paths u => insertPath paths u.path (boundName u)) paths).lookup path =
      ((lastAt us path).map boundName).or (paths.lookup path) := by
  induction us with
  | nil => exact fun paths => rfl
  | cons u us ih =>
    intro paths
    rw [List.foldl_cons, ih, lookup_insertPath, lastAt, lastAt, List.reverse_cons, List.find?_append]
    cases us.reverse.find? fun u => u.path == path with
    | some v => rfl
    | none =>
      by_cases hpath : path = u.path
      · simp [hpath]
      · have hother : (u.path == path) = false := by simpa using fun h => hpath h.symm
        simp [hpath, hother]

/-- The path map knows the last parameter at each place. -/
theorem lookup_pathMap (blocks : List UniformBlock) (path : String) :
    (pathMap blocks).lookup path = (lastAt (bindings blocks) path).map boundName := by
  rw [pathMap, lookup_foldl]
  simp

/-- Parameters that stand at different places in the document, and whose textures have names of their own. -/
structure Apart (us : List Uniform) : Prop where
  paths : ∀ u ∈ us, ∀ v ∈ us, u ≠ v → u.path ≠ v.path
  textures : ∀ u ∈ us, ∀ v ∈ us, u ≠ v → u.type = .filename → textureName u.variableName ≠ boundName v

instance (us : List Uniform) : Decidable (Apart us) :=
  decidable_of_iff
    ((∀ u ∈ us, ∀ v ∈ us, u ≠ v → u.path ≠ v.path) ∧
      ∀ u ∈ us, ∀ v ∈ us, u ≠ v → u.type = .filename → textureName u.variableName ≠ boundName v)
    ⟨fun h => ⟨h.1, h.2⟩, fun h => ⟨h.paths, h.textures⟩⟩

/-- Every parameter that stands in the document is bound under its place there, and no two to the same name. -/
structure Bound (x : Fragment) : Prop where
  complete : ∀ u ∈ bindings x.shader.stage.blocks, x.paths.lookup u.path = some (boundName u)
  unambiguous : ∀ u ∈ bindings x.shader.stage.blocks, ∀ v ∈ bindings x.shader.stage.blocks,
    u ≠ v → boundName u ≠ boundName v

theorem lastAt_of_mem {us : List Uniform} {u : Uniform} (hpaths : ∀ v ∈ us, u ≠ v → u.path ≠ v.path) (hu : u ∈ us) :
    lastAt us u.path = some u := by
  cases hlast : lastAt us u.path with
  | none =>
    have hnone := List.find?_eq_none.mp hlast u (List.mem_reverse.mpr hu)
    simp at hnone
  | some v =>
    have hpath : v.path = u.path := by simpa using List.find?_some hlast
    have hv : v ∈ us := List.mem_reverse.mp (List.mem_of_find?_eq_some hlast)
    by_contra hne
    exact hpaths v hv (fun h => hne (congrArg some h.symm)) hpath.symm

theorem boundName_ne {us : List Uniform} (hnames : (us.map Uniform.variableName).Nodup)
    (htextures : ∀ u ∈ us, ∀ v ∈ us, u ≠ v → u.type = .filename → textureName u.variableName ≠ boundName v)
    {u v : Uniform} (hu : u ∈ us) (hv : v ∈ us) (hne : u ≠ v) : boundName u ≠ boundName v := by
  by_cases hfile : u.type = .filename
  · have hbound : boundName u = textureName u.variableName := if_pos hfile
    rw [hbound]
    exact htextures u hu v hv hne hfile
  · by_cases hfile' : v.type = .filename
    · have hbound : boundName v = textureName v.variableName := if_pos hfile'
      rw [hbound]
      exact (htextures v hv u hu hne.symm hfile').symm
    · have hbound : boundName u = u.variableName := if_neg hfile
      have hbound' : boundName v = v.variableName := if_neg hfile'
      rw [hbound, hbound']
      exact fun h => hne (List.inj_on_of_nodup_map hnames hu hv h)

/-- A fragment whose variables differ is bound exactly if places and textures differ, too. -/
theorem bound_iff {x : Fragment} (hpaths : x.paths = pathMap x.shader.stage.blocks)
    (hnames : ((bindings x.shader.stage.blocks).map Uniform.variableName).Nodup) :
    x.Bound ↔ Apart (bindings x.shader.stage.blocks) := by
  constructor
  · intro hbound
    refine ⟨fun u hu v hv hne hpath => ?_, fun u hu v hv hne hfile hname => ?_⟩
    · have hboth := (hbound.complete u hu).symm.trans (hpath ▸ hbound.complete v hv)
      exact hbound.unambiguous u hu v hv hne (Option.some.inj hboth)
    · have hname' : boundName u = textureName u.variableName := if_pos hfile
      exact hbound.unambiguous u hu v hv hne (hname'.trans hname)
  · intro hapart
    refine ⟨fun u hu => ?_, fun u hu v hv hne => boundName_ne hnames hapart.textures hu hv hne⟩
    rw [hpaths, lookup_pathMap, lastAt_of_mem (hapart.paths u hu) hu]
    rfl

end Fragment

theorem Emit.paths_published (g : Graph) (ids : List NodeId) : ((published g ids).map Uniform.path).Sublist g.places := by
  rw [published, List.map_append, List.map_map, List.map_flatMap]
  refine List.Sublist.append (List.Sublist.refl _) (List.filter_sublist.flatMap _ |>.trans ?_)
  refine List.Sublist.flatMap_right _ fun n _ => ?_
  rw [List.map_map]
  exact List.filter_sublist.map _

/-! ## Fragments -/

namespace Fragment

variable {r : Request} {cross : Option CrossCompiler} {base : String} {element : Shader.Element} {s s' : BuildState}
  {x : Fragment}

theorem bindings_of_generate (h : generate r cross base element s = .ok x s') :
    x.paths = pathMap x.shader.stage.blocks ∧ ∃ g t ids,
      element.build { r with generator := { language := .glsl } } s = .ok g t ∧ g.reachable = .ok ids ∧
      bindings x.shader.stage.blocks = (Emit.publicBlock g ids).uniforms.filter fun u => u.path != "" := by
  obtain ⟨shader, s₁, hshader, hpure⟩ := state_bind_eq_ok.mp h
  obtain ⟨rfl, -⟩ := state_pure_eq_ok.mp hpure
  obtain ⟨g, t, hbuild, hwrite⟩ := state_bind_eq_ok.mp hshader
  obtain ⟨⟨ids, front, middle, hids, -, hfunctions, hlast, -⟩⟩ := Emit.parts_shader rfl (Shader.write_spec hwrite)
  obtain ⟨_, _, hstage, -⟩ := hlast (Emit.emits_body_any _ true)
  refine ⟨rfl, g, t, ids, hbuild, hids, ?_⟩
  have hother : publicUniforms ≠ lightData := by decide
  have hblocks : shader.stage.blocks = Emit.publicBlock g ids :: Emit.lights .glsl := by
    rw [hstage]
    exact Emit.blocks_defineFunctions hfunctions
  change bindings shader.stage.blocks = _
  rw [hblocks]
  simp [bindings, Emit.name_publicBlock, Emit.lights, hother]

/-- **What the host can set.** A place in the document stands for the last parameter there. All parameters are bound,
each one to a name of its own, exactly if their places differ and no texture is named like another parameter. Without
flattening, the places differ in every node graph with plain names. -/
theorem parameters_bound (hpick : Injective s.ids.pick) (h : generate r cross base element s = .ok x s') :
    (∀ path, x.paths.lookup path = (lastAt (bindings x.shader.stage.blocks) path).map boundName) ∧
    (x.Bound ↔ Apart (bindings x.shader.stage.blocks)) ∧
    (∀ d, element = .graph d → r.options.flatten = false → Build.PlainNames r d →
      ∀ u ∈ bindings x.shader.stage.blocks, x.paths.lookup u.path = some (boundName u)) := by
  obtain ⟨hpaths, g, t, ids, hbuild, -, hbindings⟩ := bindings_of_generate h
  obtain ⟨-, hsub, hnodup, -⟩ := UniformBlock.uniforms_foldl (Emit.published g ids) { name := publicUniforms }
  have hlookup (path : String) :
      x.paths.lookup path = (lastAt (bindings x.shader.stage.blocks) path).map boundName := by
    rw [hpaths, lookup_pathMap]
  refine ⟨hlookup, bound_iff hpaths ?_, ?_⟩
  · rw [hbindings]
    exact (hnodup List.nodup_nil).sublist (List.filter_sublist.map _)
  · rintro d rfl hflatten hd u hu
    have hplain : Build.PlainNames { r with generator := { language := .glsl } } d :=
      ⟨hd.graph, hd.nodes, hd.nodeNames, hd.pins, hd.interface⟩
    have hplaces := hplain.nodup_places hflatten hpick hbuild
    have hdistinct : ((bindings x.shader.stage.blocks).map Uniform.path).Nodup := by
      rw [hbindings]
      exact hplaces.sublist (((List.filter_sublist.trans hsub).map _).trans (Emit.paths_published g ids))
    rw [hlookup, lastAt_of_mem (fun v hv hne hpath => hne (List.inj_on_of_nodup_map hdistinct hu hv hpath)) hu]
    rfl

/-! ## Photos -/

open Shader (numberPin numberNode)

def parameter (name typeName : String) : PinDef := { name, typeName, uniform := true }

/-- A node that scales what it reads by the parameter of its graph. -/
def gainNode (name : String) (reads : InputBinding) : NodeInstance :=
  { name, category := "gain", typeName := "float"
    inputs := [reads, { name := "amount", typeName := "float", interfaceName := some "amount" }] }

/-- Textures that are looked up, and a compound that uses its parameter twice. -/
def photos : Document :=
  { nodedefs := [
      ("photo", [parameter "file" "filename", parameter "level" "float"]),
      ("poster", [parameter "file" "filename", parameter "file_texture" "float"]),
      ("gain", [numberPin "in", parameter "amount" "float"]),
      ("boost", [numberPin "in", parameter "amount" "float"])].map fun (category, inputs) =>
        { name := "ND_" ++ category, category, inputs, outputs := [numberPin "out"] }
    sources := [
      ("photo", "texture(\x7b\x7bfile\x7d\x7d, vec2(\x7b\x7blevel\x7d\x7d)).r"),
      ("poster", "texture(\x7b\x7bfile\x7d\x7d, vec2(\x7b\x7bfile_texture\x7d\x7d)).r"),
      ("gain", "\x7b\x7bin\x7d\x7d * \x7b\x7bamount\x7d\x7d")].map fun (name, source) =>
        { name := "IM_" ++ name, nodedef := "ND_" ++ name, language := "glsl", file := some (name ++ ".inline")
          source := some source }
    nodegraphs := [
      { name := "NG_boost", nodedef := some "ND_boost"
        nodes := [gainNode "first" { name := "in", typeName := "float", interfaceName := some "in" },
          gainNode "second" { name := "in", typeName := "float", nodeName := some "first" }]
        outputs := [{ name := "out", typeName := "float", nodeName := "second" }] }] }

def bright : NodeGraph :=
  { name := "bright"
    nodes := [numberNode "img" "photo" [], numberNode "boost" "boost" [("in", "img")]]
    outputs := [{ name := "out", typeName := "float", nodeName := "boost" }] }

/-- A photo with a parameter that has the name of its texture. -/
def poster : NodeGraph :=
  { name := "poster"
    nodes := [numberNode "img" "poster" []]
    outputs := [{ name := "out", typeName := "float", nodeName := "img" }] }

def photoRequest (flatten : Bool) : Request :=
  { document := photos, generator := { language := .glsl }, options := { flatten } }

/-- A compound that is kept has one parameter for both of its nodes. -/
theorem bright_parameters_bound : Injective ({} : BuildState).ids.pick ∧
    (photoRequest false).options.flatten = false ∧ Build.PlainNames (photoRequest false) bright ∧
    ∃ x s', generate (photoRequest false) none "bright" (.graph bright) {} = .ok x s' ∧ x.Bound ∧
      (bindings x.shader.stage.blocks).map (fun u => (u.path, x.paths.lookup u.path)) =
        [("bright/img/file", some "img_file_texture"), ("bright/img/level", some "img_level"),
          ("bright/boost/amount", some "boost_amount")] := by
  have hpick : Injective ({} : BuildState).ids.pick := fun _ _ h => congrArg NodeId.index h
  have hplain : Build.PlainNames (photoRequest false) bright := by
    refine ⟨by decide, by decide, by decide, by decide, fun pins hpins => ?_⟩
    obtain rfl : pins = [] := (Except.ok.inj hpins).symm
    exact ⟨List.nodup_nil, fun p hp => absurd hp List.not_mem_nil⟩
  obtain ⟨x, s', hx, hapart, hnames⟩ :=
    Build.exists_ok_of_check (generate (photoRequest false) none "bright" (.graph bright)) {}
      (fun x _ => Apart (bindings x.shader.stage.blocks) ∧
        (bindings x.shader.stage.blocks).map (fun u => (u.path, some (boundName u))) =
          [("bright/img/file", some "img_file_texture"), ("bright/img/level", some "img_level"),
            ("bright/boost/amount", some "boost_amount")])
      (by decide +kernel)
  obtain ⟨-, hbound, hcomplete⟩ := parameters_bound hpick hx
  refine ⟨hpick, rfl, hplain, x, s', hx, hbound.mpr hapart, ?_⟩
  rw [← hnames]
  exact List.map_congr_left fun u hu => by rw [hcomplete bright rfl rfl hplain u hu]

/-- Neither condition can be left out: flattening gives each node inside of a compound a parameter of its own, all of
them at the place of the one that the document has, and a texture can be named like a parameter. -/
theorem unbound_parameters :
    (∃ x s', generate (photoRequest true) none "bright" (.graph bright) {} = .ok x s' ∧
      ∃ u ∈ bindings x.shader.stage.blocks, x.paths.lookup u.path ≠ some (boundName u)) ∧
    ∃ x s', generate (photoRequest false) none "poster" (.graph poster) {} = .ok x s' ∧
      ∃ u ∈ bindings x.shader.stage.blocks, ∃ v ∈ bindings x.shader.stage.blocks, u ≠ v ∧ boundName u = boundName v :=
  ⟨Build.exists_ok_of_check _ _ _ (by decide +kernel), Build.exists_ok_of_check _ _ _ (by decide +kernel)⟩

end Fragment

end ShadeGraph
