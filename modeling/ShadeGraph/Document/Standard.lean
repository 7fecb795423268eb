import ShadeGraph.Document.Basic

/-!
# The standard library

The node definitions that every document can use: arithmetic, constants, conditionals, blur, image lookup and basic
shading, with their source code in each language. Constants, dots, conditionals, switches and blurs have no source
code, because their code is generated from the node.
-/

namespace ShadeGraph.Standard

/-- The languages with source code in the library. -/
def languages : List String := ["osl", "mdl", "glsl"]

/-- The types for which the arithmetic and conditional nodes are defined. -/
def valueTypes : List String := ["float", "color3", "vector3"]

/-- A value with the same text for every component. -/
def splat (typeName component : String) : String :=
  let count :=
    match typeName with
    | "vector2" | "color2" => 2
    | "vector3" | "color3" => 3
    | "vector4" | "color4" => 4
    | _ => 1
  Text.join ", " (List.replicate count component)

def pin (name typeName : String) : PinDef := { name, typeName }

/-- A pin with a default value. -/
def pinWith (name typeName value : String) : PinDef := { name, typeName, value := some value }

def sourceName (stem language : String) : String := "IM_" ++ stem ++ "_" ++ language

def inlineSource (stem language expression : String) : SourceDef :=
  { name := sourceName stem language, nodedef := "ND_" ++ stem, file := some ("mx_" ++ stem ++ ".inline"), language,
    source := some expression }

def functionSource (stem language function text : String) : SourceDef :=
  { name := sourceName stem language, nodedef := "ND_" ++ stem, file := some (function ++ "." ++ language),
    function := some function, language, source := some text }

/-- Definitions with their implementations and graphs. -/
structure Part where
  nodedefs : List NodeDef := []
  sources : List SourceDef := []
  nodegraphs : List NodeGraph := []

/-! ## Arithmetic -/

/-- A binary operator on values of one type. -/
def operatorPart (typeName category operator identity : String) : Part :=
  let stem := category ++ "_" ++ typeName
  { nodedefs := [{
      name := "ND_" ++ stem
      category
      inputs := [pinWith "in1" typeName (splat typeName "0.0"), pinWith "in2" typeName (splat typeName identity)]
      outputs := [pin "out" typeName] }]
    sources := languages.map fun language =>
      inlineSource stem language ("\x7b\x7bin1\x7d\x7d " ++ operator ++ " \x7b\x7bin2\x7d\x7d") }

/-- Linear interpolation between values of one type. -/
def mixPart (typeName : String) : Part :=
  let stem := "mix_" ++ typeName
  { nodedefs := [{
      name := "ND_" ++ stem
      category := "mix"
      inputs := [pinWith "fg" typeName (splat typeName "0.0"), pinWith "bg" typeName (splat typeName "0.0"),
        pinWith "mix" "float" "0.0"]
      outputs := [pin "out" typeName] }]
    sources := [
      inlineSource stem "osl" "mix(\x7b\x7bbg\x7d\x7d, \x7b\x7bfg\x7d\x7d, \x7b\x7bmix\x7d\x7d)",
      inlineSource stem "glsl" "mix(\x7b\x7bbg\x7d\x7d, \x7b\x7bfg\x7d\x7d, \x7b\x7bmix\x7d\x7d)",
      inlineSource stem "mdl" "math::lerp(\x7b\x7bbg\x7d\x7d, \x7b\x7bfg\x7d\x7d, \x7b\x7bmix\x7d\x7d)"] }

/-- A colour scaled by a number. -/
def scaledColorPart : Part where
  nodedefs := [{
    name := "ND_multiply_color3FA"
    category := "multiply"
    inputs := [pinWith "in1" "color3" "0.0, 0.0, 0.0", pinWith "in2" "float" "1.0"]
    outputs := [pin "out" "color3"] }]
  sources := languages.map fun language =>
    inlineSource "multiply_color3FA" language "\x7b\x7bin1\x7d\x7d * \x7b\x7bin2\x7d\x7d"

def arithmetic : List Part :=
  (valueTypes.flatMap fun typeName =>
    [operatorPart typeName "add" "+" "0.0", operatorPart typeName "subtract" "-" "0.0",
      operatorPart typeName "multiply" "*" "1.0", operatorPart typeName "divide" "/" "1.0", mixPart typeName])
    ++ [scaledColorPart]

/-! ## Generated nodes -/

def constantDef (typeName : String) : NodeDef where
  name := "ND_constant_" ++ typeName
  category := "constant"
  inputs := [if typeName = "floatarray" || typeName = "matrix33" then pin "value" typeName
    else pinWith "value" typeName (splat typeName "0.0")]
  outputs := [pin "out" typeName]

def dotDef (typeName : String) : NodeDef where
  name := "ND_dot_" ++ typeName
  category := "dot"
  inputs := [pin "in" typeName]
  outputs := [pin "out" typeName]

def conditionalDef (typeName category : String) : NodeDef where
  name := "ND_" ++ category ++ "_" ++ typeName
  category
  inputs := [pinWith "value1" "float" "1.0", pinWith "value2" "float" "0.0",
    pinWith "in1" typeName (splat typeName "0.0"), pinWith "in2" typeName (splat typeName "0.0")]
  outputs := [pin "out" typeName]

def switchDef (typeName : String) : NodeDef where
  name := "ND_switch_" ++ typeName
  category := "switch"
  inputs := (["in1", "in2", "in3", "in4", "in5"].map fun name => pinWith name typeName (splat typeName "0.0"))
    ++ [pinWith "which" "float" "0.0"]
  outputs := [pin "out" typeName]

def blurDef (typeName : String) : NodeDef where
  name := "ND_blur_" ++ typeName
  category := "blur"
  inputs := [pinWith "in" typeName (splat typeName "0.0"), pinWith "size" "float" "0.0",
    { name := "filtertype", typeName := "string", value := some "box", uniform := true }]
  outputs := [pin "out" typeName]

/-- The nodes whose code is generated. -/
def generated : Part where
  nodedefs :=
    (["float", "color3", "color4", "vector2", "vector3", "matrix33", "floatarray"].map constantDef)
    ++ (["float", "color3", "vector3", "filename"].map dotDef)
    ++ valueTypes.flatMap fun typeName =>
      (["ifgreater", "ifgreatereq", "ifequal"].map (conditionalDef typeName))
        ++ [switchDef typeName, blurDef typeName]

/-! ## Textures -/

def imageOsl : String :=
  "void mx_image_color3(string file, color default_value, vector2 texcoord, output color result)\n"
  ++ "\x7b\n"
  ++ "    result = texture(file, texcoord.x, texcoord.y, \"missingcolor\", default_value);\n"
  ++ "\x7d\n"

def imageMdl : String :=
  "color mx_image_color3(uniform texture_2d file, color default_value, float2 texcoord)\n"
  ++ "\x7b\n"
  ++ "    return tex::texture_isvalid(file) ? color(tex::lookup_float3(file, texcoord)) : default_value;\n"
  ++ "\x7d\n"

def imageGlsl : String :=
  "void mx_image_color3(sampler2D tex_sampler, vec3 default_value, vec2 texcoord, out vec3 result)\n"
  ++ "\x7b\n"
  ++ "    result = texture(tex_sampler, texcoord).rgb;\n"
  ++ "\x7d\n"

def textures : Part where
  nodedefs := [{
    name := "ND_image_color3"
    category := "image"
    inputs := [{ name := "file", typeName := "filename", value := some "", uniform := true },
      pinWith "default" "color3" "0.0, 0.0, 0.0", pinWith "texcoord" "vector2" "0.0, 0.0"]
    outputs := [pin "out" "color3"] }]
  sources := [
    functionSource "image_color3" "osl" "mx_image_color3" imageOsl,
    functionSource "image_color3" "mdl" "mx_image_color3" imageMdl,
    functionSource "image_color3" "glsl" "mx_image_color3" imageGlsl]

/-! ## Shading -/

def diffuseOsl : String :=
  "void mx_diffuse_bsdf(float weight, color reflectance, float roughness, vector N, output closure color result)\n"
  ++ "\x7b\n"
  ++ "    result = weight * reflectance * oren_nayar(N, roughness);\n"
  ++ "\x7d\n"

def diffuseMdl : String :=
  "bsdf mx_diffuse_bsdf(float weight, color reflectance, float roughness, float3 N)\n"
  ++ "\x7b\n"
  ++ "    return df::diffuse_reflection_bsdf(tint: reflectance * weight, roughness: roughness);\n"
  ++ "\x7d\n"

def surfaceOsl : String :=
  "void mx_surface(closure color bsdf, closure color edf, float opacity, output closure color result)\n"
  ++ "\x7b\n"
  ++ "    result = (bsdf + edf) * opacity + transparent() * (1.0 - opacity);\n"
  ++ "\x7d\n"

def surfaceMdl : String :=
  "material mx_surface(bsdf bsdf_in, edf edf_in, float opacity)\n"
  ++ "= material(\n"
  ++ "    surface: material_surface(scattering: bsdf_in, emission: material_emission(emission: edf_in)),\n"
  ++ "    geometry: material_geometry(cutout_opacity: opacity)\n"
  ++ ");\n"

/-- The diffuse reflection and the surface built from closures. -/
def shading : Part where
  nodedefs := [
    { name := "ND_diffuse_bsdf"
      category := "diffuse_bsdf"
      inputs := [pinWith "weight" "float" "1.0", pinWith "color" "color3" "0.18, 0.18, 0.18",
        pinWith "roughness" "float" "0.0", pinWith "normal" "vector3" "0.0, 0.0, 1.0"]
      outputs := [pin "out" "BSDF"] },
    { name := "ND_surface"
      category := "surface"
      inputs := [pin "bsdf" "BSDF", pin "edf" "EDF", pinWith "opacity" "float" "1.0"]
      outputs := [pin "out" "surfaceshader"] }]
  sources := [
    functionSource "diffuse_bsdf" "osl" "mx_diffuse_bsdf" diffuseOsl,
    functionSource "diffuse_bsdf" "mdl" "mx_diffuse_bsdf" diffuseMdl,
    functionSource "surface" "osl" "mx_surface" surfaceOsl,
    functionSource "surface" "mdl" "mx_surface" surfaceMdl]

/-! ## Compounds -/

/-- A colour scaled by an amount, implemented by a graph. -/
def compounds : Part where
  nodedefs := [{
    name := "ND_scale_color3"
    category := "scale"
    inputs := [pinWith "in" "color3" "0.0, 0.0, 0.0", pinWith "amount" "float" "1.0"]
    outputs := [pin "out" "color3"] }]
  nodegraphs := [{
    name := "NG_scale_color3"
    nodedef := some "ND_scale_color3"
    nodes := [{
      name := "scaled"
      category := "multiply"
      typeName := "color3"
      nodedef := some "ND_multiply_color3FA"
      inputs := [{ name := "in1", typeName := "color3", interfaceName := some "in" },
        { name := "in2", typeName := "float", interfaceName := some "amount" }] }]
    outputs := [{ name := "out", typeName := "color3", nodeName := "scaled" }] }]

def parts : List Part := arithmetic ++ [generated, textures, shading, compounds]

def library : Document where
  name := "stdlib"
  nodedefs := parts.flatMap Part.nodedefs
  sources := parts.flatMap Part.sources
  nodegraphs := parts.flatMap Part.nodegraphs

end ShadeGraph.Standard
