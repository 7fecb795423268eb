import ShadeGraph.Graph.Basic

/-!
# Variables of a graph

Every output and socket gets a variable name, and so does every input that is published as a uniform. The names are
valid in the target language and differ from each other, because each is made fresh against those given before.
-/

namespace ShadeGraph

abbrev Naming := StateM (List String)

namespace Naming

/-- A valid name that has not been given yet. -/
def give (dialect : Dialect) (name : String) : Naming String := fun used =>
  let chosen := dialect.validName used name
  (chosen, used ++ [chosen])

def inputSocket (language : Language) (s : Output) : Naming Output := do
  let variableName ← give language.dialect (s.name ++ language.suffix s.type)
  pure { s with variableName }

def outputSocket (language : Language) (s : Input) : Naming Input := do
  let variableName ← give language.dialect s.name
  pure { s with variableName }

def output (language : Language) (node : String) (o : Output) : Naming Output := do
  let variableName ← give language.dialect (node ++ "_" ++ o.name)
  pure { o with variableName }

/-- Names an input of a node that is published, and clears the name of any other. -/
def input (language : Language) (publish : Bool) (node : String) (i : Input) : Naming Input :=
  if publish && i.uniform && !i.isConnected then do
    let variableName ← give language.dialect (node ++ "_" ++ i.name ++ language.suffix i.type)
    pure { i with variableName }
  else pure { i with variableName := "" }

/-- Names the pins of a node, its outputs first. -/
def node (language : Language) (publish : Bool) (n : Node) : Naming Node := do
  let outputs ← n.outputs.mapM (output language n.name)
  let inputs ← n.inputs.mapM (input language publish n.name)
  pure { n with outputs, inputs }

/-- Names the sockets and then the nodes of a graph. -/
def graph (language : Language) (publish : Bool) (g : Graph) : Naming Graph := do
  let inputSockets ← g.inputSockets.mapM (inputSocket language)
  let outputSockets ← g.outputSockets.mapM (outputSocket language)
  let nodes ← g.nodes.mapM (node language publish)
  pure { g with inputSockets, outputSockets, nodes }

end Naming

/-- Names all variables of a graph; unconnected uniform inputs get a name when they are published. -/
def Graph.assignVariables (g : Graph) (language : Language) (publish : Bool) : Graph :=
  (Naming.graph language publish g []).1

end ShadeGraph
