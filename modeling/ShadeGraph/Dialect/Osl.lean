import ShadeGraph.Dialect.Basic

/-!
# The dialect of OSL

Structures and closures that the language lacks are defined in the source; a three-row matrix is written as a four-row
one.
-/

namespace ShadeGraph.Dialect

/-- A closure type of the language under a name of its own. -/
def oslClosure (name : String) : TypeForm where
  name := name
  default := "null_closure"
  uniformDefault := "null_closure"
  aliasOf := some "closure color"
  definition := some ("#define " ++ name ++ " closure color")

def oslReserved : List String :=
  ["and", "break", "closure", "color", "continue", "do", "else", "emit", "float", "for", "if", "illuminance",
    "illuminate", "int", "matrix", "normal", "not", "or", "output", "point", "public", "return", "string", "struct",
    "vector", "void", "while", "bool", "case", "catch", "char", "class", "const", "delete", "default", "double",
    "enum", "extern", "false", "friend", "goto", "inline", "long", "new", "operator", "private", "protected",
    "short", "signed", "sizeof", "static", "switch", "template", "this", "throw", "true", "try", "typedef",
    "uniform", "union", "unsigned", "varying", "virtual", "volatile", "shader", "surface", "displacement", "volume",
    "light"]

def oslForms : List (DataType × TypeForm) :=
  [(.boolean, { name := "int", default := "false", uniformDefault := "false"
                definition := some "#define true 1\n#define false 0" }),
    (.integer, { name := "int", default := "0", uniformDefault := "0" }),
    (.float, { name := "float", default := "0.0", uniformDefault := "0.0" }),
    (.tuple .color2, { name := "color2", default := "color2(0.0, 0.0)", uniformDefault := "\x7b0.0, 0.0\x7d"
                       form := .record true, members := [".r", ".a"]
                       definition := some "struct color2 \x7b float r; float a; \x7d;" }),
    (.tuple .color3, { name := "color", default := "color(0.0)", uniformDefault := "color(0.0)"
                       form := .constructor, members := ["[0]", "[1]", "[2]"] }),
    (.tuple .color4, { name := "color4", default := "color4(color(0.0), 0.0)"
                       uniformDefault := "\x7bcolor(0.0), 0.0\x7d"
                       form := .opacity "color" true, members := [".rgb[0]", ".rgb[1]", ".rgb[2]", ".a"]
                       definition := some "struct color4 \x7b color rgb; float a; \x7d;" }),
    (.tuple .vector2, { name := "vector2", default := "vector2(0.0, 0.0)", uniformDefault := "\x7b0.0, 0.0\x7d"
                        form := .record true, members := [".x", ".y"]
                        definition := some "struct vector2 \x7b float x; float y; \x7d;" }),
    (.tuple .vector3, { name := "vector", default := "vector(0.0)", uniformDefault := "vector(0.0)"
                        form := .constructor, members := ["[0]", "[1]", "[2]"] }),
    (.tuple .vector4, { name := "vector4", default := "vector4(0.0, 0.0, 0.0, 0.0)"
                        uniformDefault := "\x7b0.0, 0.0, 0.0, 0.0\x7d"
                        form := .record true, members := [".x", ".y", ".z", ".w"]
                        definition := some "struct vector4 \x7b float x; float y; float z; float w; \x7d;" }),
    (.tuple .matrix33, { name := "matrix", default := "matrix(1.0)", uniformDefault := "matrix(1.0)"
                         form := .paddedMatrix }),
    (.tuple .matrix44, { name := "matrix", default := "matrix(1.0)", uniformDefault := "matrix(1.0)"
                         form := .constructor }),
    (.string, { name := "string", default := "\"\"", uniformDefault := "\"\"", form := .quoted }),
    (.filename, { name := "string", default := "\"\"", uniformDefault := "\"\"", form := .quoted }),
    (.integerArray, { name := "int", default := "\x7b\x7d", uniformDefault := "\x7b\x7d"
                      form := .array "\x7b" "\x7d" }),
    (.floatArray, { name := "float", default := "\x7b\x7d", uniformDefault := "\x7b\x7d"
                    form := .array "\x7b" "\x7d" }),
    (.closure .bsdf, oslClosure "BSDF"),
    (.closure .edf, oslClosure "EDF"),
    (.closure .vdf, oslClosure "VDF"),
    (.shader .surface, oslClosure "surfaceshader"),
    (.shader .volume, oslClosure "volumeshader"),
    (.shader .displacement, oslClosure "displacementshader"),
    (.shader .light, oslClosure "lightshader"),
    (.material, oslClosure "MATERIAL")]

def osl : Dialect where
  name := "osl"
  forms := oslForms
  reserved := oslReserved
  outputQualifier := "output"

end ShadeGraph.Dialect
