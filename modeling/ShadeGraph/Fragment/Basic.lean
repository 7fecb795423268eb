import ShadeGraph.Fragment.Digest
import ShadeGraph.Shader.Generate

/-!
# Fragments

A fragment is a GLSL function wrapped in a description for its host: the parameters, their default values and the
outputs, followed by the source code. Its name holds a digest of the description, so that equal graphs have equal names
and a change gives a new one. The path map says under which name the host binds a parameter of the document.
-/

namespace ShadeGraph

/-- The mark that stands for the name of a fragment until the name is known. -/
def fragmentMark : String := "$fragmentName"

/-- The texture that the host binds for a sampler. -/
def textureName (sampler : String) : String :=
  let suffix := Language.samplerSuffix.toList
  let name := sampler.toList
  if suffix.isSuffixOf name then String.ofList (name.take (name.length - suffix.length)) ++ "_texture"
  else sampler ++ "_texture"

/-- The name of a fragment: a valid name and the digest of its description without carriage returns. -/
def fragmentName (l : Language) (base description : String) : String :=
  let text := String.ofList (description.toList.filter fun c => c != '\r')
  l.dialect.validName [] base ++ "__" ++ Digest.fingerprint text

def hostType : DataType → String
  | .boolean => "bool"
  | .integer => "int"
  | .tuple .vector2 | .tuple .color2 => "float2"
  | .tuple .vector3 | .tuple .color3 => "float3"
  | .tuple .vector4 | .tuple .color4 => "float4"
  | .tuple .matrix33 => "float3x3"
  | .tuple .matrix44 => "float4x4"
  | .string => "string"
  | .filename => "texture2"
  | _ => "float"

structure CrossCompiler where
  language : String
  /-- The source code in the other language, or why there is none. -/
  compile : String → Except String String

/-- A wrapped shader. -/
structure Fragment where
  name : String
  /-- The description. -/
  text : String
  /-- The parameters of the document and the names that the host binds. -/
  paths : List (String × String)
  shader : Shader
  deriving Inhabited

namespace Fragment

/-- The lines that declare a parameter. -/
def propertyLines (u : Uniform) : List String :=
  if u.type = .filename then
    ["    <texture2 name=\"" ++ textureName u.variableName ++ "\" />",
      "    <sampler name=\"" ++ u.variableName ++ "\" />"]
  else ["    <" ++ hostType u.type ++ " name=\"" ++ u.variableName ++ "\" />"]

/-- The line that gives a parameter its default value. -/
def valueLines (f : FloatFormat) (u : Uniform) : List String :=
  if u.type = .filename then []
  else
    match u.value with
    | none => []
    | some value =>
      ["    <" ++ hostType u.type ++ " name=\"" ++ u.variableName ++ "\" value=\""
        ++ Text.replace ", " "," (value.text f) ++ "\" />"]

def outputLine (s : Input) : String := "    <" ++ hostType s.type ++ " name=\"" ++ s.variableName ++ "\" />"

/-- The lines around the source code in some language. -/
def sourceLines (language version source : String) : List String :=
  ["  <implementation render=\"OGSRenderer\" language=\"" ++ language ++ "\" lang_version=\"" ++ version ++ "\">",
    "    <function_name val=\"" ++ fragmentMark ++ "\" />",
    "    <source><![CDATA[\n" ++ source ++ "]]></source>",
    "  </implementation>"]

/-- The lines for the source code in a second language, if there is any. -/
def secondaryLines (o : Options) (cross : Option CrossCompiler) (source : String) : List String :=
  match cross with
  | none => []
  | some c =>
    if o.secondary then
      match c.compile source with
      | .ok text => sourceLines c.language "11.0" text
      | .error _ => []
    else []

/-- The description of a shader, with the mark in place of its name. -/
def describe (o : Options) (cross : Option CrossCompiler) (s : Shader) : List String :=
  let uniforms := ((s.stage.block? publicUniforms).map UniformBlock.uniforms).getD []
  ["<fragment uiName=\"" ++ fragmentMark ++ "\" name=\"" ++ fragmentMark
      ++ "\" type=\"plumbing\" class=\"ShadeFragment\" version=\"1\">",
    "  <description><![CDATA[Generated from " ++ s.graph.name ++ "]]></description>",
    "  <properties>"]
  ++ uniforms.flatMap propertyLines
  ++ ["  </properties>", "  <values>"]
  ++ uniforms.flatMap (valueLines o.floatFormat)
  ++ ["  </values>", "  <outputs>"]
  ++ s.graph.outputSockets.map outputLine
  ++ ["  </outputs>", "  <implementation>"]
  ++ sourceLines "GLSL" "3.0" s.text
  ++ secondaryLines o cross s.text
  ++ ["  </implementation>", "</fragment>"]

/-- The name that the host binds for a parameter. -/
def boundName (u : Uniform) : String := if u.type = .filename then textureName u.variableName else u.variableName

/-- Adds an entry, or replaces the one of the same key in its place. -/
def insertPath (paths : List (String × String)) (path name : String) : List (String × String) :=
  if paths.any fun p => p.1 == path then paths.map fun p => if p.1 = path then (path, name) else p
  else paths ++ [(path, name)]

/-- The parameters that the host can set by their place in the document. -/
def bindings (blocks : List UniformBlock) : List Uniform :=
  (blocks.filter fun b => b.name != lightData).flatMap fun b => b.uniforms.filter fun u => u.path != ""

/-- The names that the host binds, by the place of the parameter in the document. -/
def pathMap (blocks : List UniformBlock) : List (String × String) :=
  (bindings blocks).foldl (fun paths u => insertPath paths u.path (boundName u)) []

/-- Wraps a shader that has the mark as its name. -/
def wrap (o : Options) (cross : Option CrossCompiler) (base : String) (s : Shader) : Fragment :=
  let text := String.join ((describe o cross s).map fun l => l ++ "\n")
  let name := fragmentName .glsl base text
  { name
    text := Text.replace fragmentMark name text
    paths := pathMap s.stage.blocks
    shader := s.replace fragmentMark name }

def generate (r : Request) (cross : Option CrossCompiler) (base : String) (element : Shader.Element) :
    Build Fragment := do
  let shader ← Shader.generate { r with generator := { language := .glsl } } fragmentMark element
  pure (wrap r.options cross base shader)

end Fragment
end ShadeGraph
