import ShadeGraph.Document.Basic
import ShadeGraph.Language
import ShadeGraph.Ron.Reading

/-!
# Documents and options in object notation

How the parts of documents and options are written as values, and how they are read from them. A record may be
written with the name of its kind or, unless the settings of the text ask for names, without a name. Its fields may
come in any order; a field that is not known is skipped, and a known one that occurs twice is an error. Where a field
has a default it may be missing.
-/

namespace ShadeGraph.Ron

/-- Things that are kept in object notation. How they are read depends on the settings of the text. -/
class Coded (α : Type) where
  encode : α → Ron
  decode? : Settings → Ron → Option α

export Coded (encode decode?)

/-! ## Fields -/

/-- The fields of a record of some kind. -/
def fields? (s : Settings) (kind : String) : Ron → Option (List Field)
  | record name fields => if name = kind || (name = "" && !s.namedRecords) then some fields else none
  | unit => if s.namedRecords then none else some []
  | _ => none

/-- The values of a field. -/
def valuesOf (fields : List Field) (name : String) : List Ron :=
  (fields.filter fun f => f.name == name).map Field.value

section

variable {α : Type} [Coded α]

def field (name : String) (a : α) : Field := .mk name (encode a)

/-- Reads a field that must be there. -/
def required (s : Settings) (fields : List Field) (name : String) : Option α :=
  match valuesOf fields name with
  | [r] => decode? s r
  | _ => none

/-- Reads a field that may be missing. -/
def optional (s : Settings) (fields : List Field) (name : String) (missing : α) : Option α :=
  match valuesOf fields name with
  | [] => some missing
  | [r] => decode? s r
  | _ => none

end

/-! ## Plain values -/

instance : Coded String where
  encode := .text
  decode? _
    | .text content => some content
    | _ => none

instance : Coded Nat where
  encode := .number
  decode? _
    | .number value => some value
    | _ => none

instance : Coded Bool where
  encode := .truth
  decode? _
    | .truth value => some value
    | _ => none

instance {α : Type} [Coded α] : Coded (Option α) where
  encode
    | none => .absent
    | some a => .present (encode a)
  decode? s
    | .absent => some none
    | .present r => (decode? s r).map some
    | r => if s.impliedPresence then (decode? s r).map some else none

instance {α : Type} [Coded α] : Coded (List α) where
  encode as := .list (as.map encode)
  decode? s
    | .list items => items.mapM (decode? s)
    | _ => none

/-! ## Documents -/

instance : Coded PinDef where
  encode p := .record "" [field "name" p.name, field "type" p.typeName, field "value" p.value,
    field "uniform" p.uniform]
  decode? s r := do
    let fields ← fields? s "PortDef" r
    pure {
      name := ← required s fields "name"
      typeName := ← required s fields "type"
      value := ← optional s fields "value" none
      uniform := ← optional s fields "uniform" false }

instance : Coded NodeDef where
  encode d := .record "" [field "name" d.name, field "node" d.category, field "inputs" d.inputs,
    field "outputs" d.outputs]
  decode? s r := do
    let fields ← fields? s "NodeDef" r
    pure {
      name := ← required s fields "name"
      category := ← required s fields "node"
      inputs := ← optional s fields "inputs" []
      outputs := ← optional s fields "outputs" [] }

instance : Coded SourceDef where
  encode s := .record "" [field "name" s.name, field "nodedef" s.nodedef, field "file" s.file,
    field "function" s.function, field "language" s.language, field "target" s.target, field "source" s.source]
  decode? s r := do
    let fields ← fields? s "Implementation" r
    pure {
      name := ← required s fields "name"
      nodedef := ← required s fields "nodedef"
      file := ← optional s fields "file" none
      function := ← optional s fields "function" none
      language := ← required s fields "language"
      target := ← optional s fields "target" ""
      source := ← optional s fields "source" none }

instance : Coded GraphOutput where
  encode o := .record "" [field "name" o.name, field "type" o.typeName, field "nodename" o.nodeName,
    field "output" o.output, field "channels" o.channels]
  decode? s r := do
    let fields ← fields? s "GraphOutput" r
    pure {
      name := ← required s fields "name"
      typeName := ← required s fields "type"
      nodeName := ← required s fields "nodename"
      output := ← optional s fields "output" none
      channels := ← optional s fields "channels" none }

instance : Coded InputBinding where
  encode i := .record "" [field "name" i.name, field "type" i.typeName, field "value" i.value,
    field "nodename" i.nodeName, field "output" i.output, field "interfacename" i.interfaceName,
    field "channels" i.channels]
  decode? s r := do
    let fields ← fields? s "InputBinding" r
    pure {
      name := ← required s fields "name"
      typeName := ← required s fields "type"
      value := ← optional s fields "value" none
      nodeName := ← optional s fields "nodename" none
      output := ← optional s fields "output" none
      interfaceName := ← optional s fields "interfacename" none
      channels := ← optional s fields "channels" none }

instance : Coded NodeInstance where
  encode n := .record "" [field "name" n.name, field "category" n.category, field "type" n.typeName,
    field "nodedef" n.nodedef, field "inputs" n.inputs]
  decode? s r := do
    let fields ← fields? s "NodeInstance" r
    pure {
      name := ← required s fields "name"
      category := ← required s fields "category"
      typeName := ← required s fields "type"
      nodedef := ← optional s fields "nodedef" none
      inputs := ← optional s fields "inputs" [] }

instance : Coded NodeGraph where
  encode g := .record "" [field "name" g.name, field "nodedef" g.nodedef, field "inputs" g.inputs,
    field "nodes" g.nodes, field "outputs" g.outputs]
  decode? s r := do
    let fields ← fields? s "NodeGraph" r
    pure {
      name := ← required s fields "name"
      nodedef := ← optional s fields "nodedef" none
      inputs := ← optional s fields "inputs" []
      nodes := ← optional s fields "nodes" []
      outputs := ← optional s fields "outputs" [] }

instance : Coded Document where
  encode d := .record "" [field "name" d.name, field "nodedefs" d.nodedefs, field "implementations" d.sources,
    field "nodegraphs" d.nodegraphs, field "nodes" d.nodes]
  decode? s r := do
    let fields ← fields? s "Document" r
    pure {
      name := ← optional s fields "name" ""
      nodedefs := ← optional s fields "nodedefs" []
      sources := ← optional s fields "implementations" []
      nodegraphs := ← optional s fields "nodegraphs" []
      nodes := ← optional s fields "nodes" [] }

/-! ## Options -/

instance : Coded FloatMode where
  encode
    | .shortest => .word "Shortest"
    | .fixed => .word "Fixed"
    | .scientific => .word "Scientific"
  decode? _
    | .word name =>
      if name = "Shortest" then some .shortest
      else if name = "Fixed" then some .fixed
      else if name = "Scientific" then some .scientific
      else none
    | _ => none

instance : Coded FloatFormat where
  encode f := .record "" [field "mode" f.mode, field "precision" f.precision]
  decode? s r := do
    let fields ← fields? s "FloatFormat" r
    pure { mode := ← required s fields "mode", precision := ← required s fields "precision" }

instance : Coded Options where
  encode o := .record "" [field "float_format" o.floatFormat, field "flatten_subgraphs" o.flatten,
    field "target" o.target, field "indent" o.indent, field "emit_type_definitions" o.typeDefinitions,
    field "fragment_secondary" o.secondary]
  decode? s r := do
    let fields ← fields? s "GenOptions" r
    let preset : Options := {}
    pure {
      floatFormat := ← optional s fields "float_format" preset.floatFormat
      flatten := ← optional s fields "flatten_subgraphs" preset.flatten
      target := ← optional s fields "target" preset.target
      indent := ← optional s fields "indent" preset.indent
      typeDefinitions := ← optional s fields "emit_type_definitions" preset.typeDefinitions
      secondary := ← optional s fields "fragment_secondary" preset.secondary }

end ShadeGraph.Ron

namespace ShadeGraph

def Document.toText (d : Document) : String := (Ron.encode d).toText

def Document.ofText? (text : String) : Option Document := (Ron.read? text).bind fun (s, r) => Ron.decode? s r

def Options.toText (o : Options) : String := (Ron.encode o).toText

def Options.ofText? (text : String) : Option Options := (Ron.read? text).bind fun (s, r) => Ron.decode? s r

end ShadeGraph
