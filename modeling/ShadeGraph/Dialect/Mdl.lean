import ShadeGraph.Dialect.Basic

/-!
# The dialect of MDL

Colour components are reached through a conversion to a three-component vector, and a colour with opacity is a
structure that the source defines.
-/

namespace ShadeGraph.Dialect

/-- A type with one default value. -/
def mdlType (name default : String) (form : ValueForm := .plain) (members : List String := []) : TypeForm where
  name := name
  default := default
  uniformDefault := default
  members := members
  form := form

def mdlReserved : List String :=
  ["annotation", "bool", "bool2", "bool3", "bool4", "break", "bsdf", "bsdf_measurement", "case", "color", "const",
    "continue", "default", "do", "double", "double2", "double3", "double4", "edf", "else", "enum", "export", "false",
    "float", "float2", "float3", "float4", "float2x2", "float3x3", "float4x4", "for", "hair_bsdf", "if", "import",
    "in", "int", "int2", "int3", "int4", "intensity_mode", "intensity_power", "intensity_radiant_exitance",
    "let", "light_profile", "material", "material_emission", "material_geometry", "material_surface",
    "material_volume", "mdl", "module", "package", "return", "string", "struct", "switch", "texture_2d",
    "texture_3d", "texture_cube", "texture_ptex", "true", "typedef", "uniform", "using", "varying", "vdf", "while"]

/-- The definition of the colour with opacity. -/
def mdlColor4 : String :=
  "struct color4\n\x7b\n    color rgb = color(0.0);\n    float a = 1.0;\n\x7d;\n" ++
    "color4 mk_color4(float v) \x7b return color4(color(v), v); \x7d"

def mdlForms : List (DataType × TypeForm) :=
  [(.boolean, mdlType "bool" "false"),
    (.integer, mdlType "int" "0"),
    (.float, mdlType "float" "0.0"),
    (.tuple .color2, mdlType "float2" "float2(0.0)" .constructor [".x", ".y"]),
    (.tuple .color3, mdlType "color" "color(0.0)" .constructor
      ["float3(\x7b\x7d).x", "float3(\x7b\x7d).y", "float3(\x7b\x7d).z"]),
    (.tuple .color4, { mdlType "color4" "mk_color4(0.0)" (.opacity "color" false)
        ["float3(\x7b\x7d.rgb).x", "float3(\x7b\x7d.rgb).y", "float3(\x7b\x7d.rgb).z", "\x7b\x7d.a"] with
      definition := some mdlColor4 }),
    (.tuple .vector2, mdlType "float2" "float2(0.0)" .constructor [".x", ".y"]),
    (.tuple .vector3, mdlType "float3" "float3(0.0)" .constructor [".x", ".y", ".z"]),
    (.tuple .vector4, mdlType "float4" "float4(0.0)" .constructor [".x", ".y", ".z", ".w"]),
    (.tuple .matrix33, mdlType "float3x3" "float3x3(1.0)" .constructor),
    (.tuple .matrix44, mdlType "float4x4" "float4x4(1.0)" .constructor),
    (.string, mdlType "string" "\"\"" .quoted),
    (.filename, mdlType "texture_2d" "texture_2d()" .constructor),
    (.integerArray, mdlType "int" "int[]()" (.array "int[](" ")")),
    (.floatArray, mdlType "float" "float[]()" (.array "float[](" ")")),
    (.closure .bsdf, mdlType "bsdf" "bsdf()"),
    (.closure .edf, mdlType "edf" "edf()"),
    (.closure .vdf, mdlType "vdf" "vdf()"),
    (.shader .surface, mdlType "material" "material()"),
    (.shader .volume, mdlType "material" "material()"),
    (.shader .displacement, mdlType "material" "material()"),
    (.shader .light, mdlType "material" "material()"),
    (.material, mdlType "material" "material()")]

def mdl : Dialect where
  name := "mdl"
  forms := mdlForms
  reserved := mdlReserved
  uniformQualifier := "uniform"

end ShadeGraph.Dialect
