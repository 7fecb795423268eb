import ShadeGraph.Dialect.Basic

/-!
# The dialect of GLSL

Colours are plain vectors. Texts become numbers, file names become texture samplers, and closures and shaders do not
exist.
-/

namespace ShadeGraph.Dialect

/-- A vector type and its members. -/
def glslVector (name : String) (members : List String) : TypeForm where
  name := name
  default := name ++ "(0.0)"
  uniformDefault := name ++ "(0.0)"
  members := members
  form := .constructor

/-- A type with one default value. -/
def glslType (name default : String) (form : ValueForm := .plain) : TypeForm where
  name := name
  default := default
  uniformDefault := default
  form := form

def glslReserved : List String :=
  ["attribute", "const", "uniform", "varying", "buffer", "shared", "coherent", "volatile", "restrict", "readonly",
    "writeonly", "layout", "centroid", "flat", "smooth", "noperspective", "patch", "sample", "break", "continue",
    "do", "for", "while", "switch", "case", "default", "if", "else", "subroutine", "in", "out", "inout", "float",
    "double", "int", "void", "bool", "true", "false", "invariant", "precise", "discard", "return", "mat2", "mat3",
    "mat4", "vec2", "vec3", "vec4", "ivec2", "ivec3", "ivec4", "bvec2", "bvec3", "bvec4", "uint", "uvec2", "uvec3",
    "uvec4", "lowp", "mediump", "highp", "precision", "sampler1D", "sampler2D", "sampler3D", "samplerCube",
    "struct", "input", "output", "texture", "common", "partition", "active", "asm", "class", "union", "enum",
    "typedef", "template", "this", "goto", "inline", "noinline", "public", "static", "extern", "external",
    "interface", "long", "short", "half", "fixed", "unsigned", "superp", "filter", "sizeof", "cast", "namespace",
    "using"]

def glslForms : List (DataType × TypeForm) :=
  [(.boolean, glslType "bool" "false"),
    (.integer, glslType "int" "0"),
    (.float, glslType "float" "0.0"),
    (.tuple .color2, glslVector "vec2" [".r", ".g"]),
    (.tuple .color3, glslVector "vec3" [".r", ".g", ".b"]),
    (.tuple .color4, glslVector "vec4" [".r", ".g", ".b", ".a"]),
    (.tuple .vector2, glslVector "vec2" [".x", ".y"]),
    (.tuple .vector3, glslVector "vec3" [".x", ".y", ".z"]),
    (.tuple .vector4, glslVector "vec4" [".x", ".y", ".z", ".w"]),
    (.tuple .matrix33, glslType "mat3" "mat3(1.0)" .constructor),
    (.tuple .matrix44, glslType "mat4" "mat4(1.0)" .constructor),
    (.string, glslType "int" "0"),
    (.filename, glslType "sampler2D" ""),
    (.integerArray, glslType "int" "" (.array "int[\x7bn\x7d](" ")")),
    (.floatArray, glslType "float" "" (.array "float[\x7bn\x7d](" ")"))]

def glsl : Dialect where
  name := "glsl"
  forms := glslForms
  reserved := glslReserved
  uniformQualifier := "uniform"
  outputQualifier := "out"

end ShadeGraph.Dialect
