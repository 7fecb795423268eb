import ShadeGraph.Value.Basic

/-!
# Pins

The inputs and outputs of nodes and of graphs, and the references by which they are connected. A graph's own input
sockets are sources inside the graph and its output sockets are sinks, so an output socket is an input here and an
input socket an output.
-/

namespace ShadeGraph

/-- The identity of a node, a number that is picked at random below `2 ^ 128`. -/
structure NodeId where
  index : Nat
  deriving DecidableEq, Inhabited

/-- An identity in messages: its 32 hexadecimal digits in five groups. -/
def NodeId.label (id : NodeId) : String :=
  let digits := Nat.toDigits 16 id.index
  let digits := List.replicate (32 - digits.length) '0' ++ digits
  let group (start length : Nat) := String.ofList ((digits.drop start).take length)
  "NodeId(" ++ Text.join "-" [group 0 8, group 8 4, group 12 4, group 16 4, String.ofList (digits.drop 20)] ++ ")"

/-- A source of node identities: what is picked, and how many have been picked so far. -/
structure IdSupply where
  pick : Nat → NodeId := NodeId.mk
  next : Nat := 0

instance : Inhabited IdSupply := ⟨{}⟩

def IdSupply.fresh (s : IdSupply) : NodeId × IdSupply := (s.pick s.next, { s with next := s.next + 1 })

/-- What a pin belongs to. -/
inductive Owner where
  /-- The graph itself. -/
  | graph
  | node (id : NodeId)
  deriving DecidableEq, Inhabited

def Owner.node? : Owner → Option NodeId
  | graph => none
  | node id => some id

/-- A reference to a pin: what it belongs to and its position there. -/
structure PinRef where
  owner : Owner
  index : Nat
  deriving DecidableEq, Inhabited

namespace PinRef

def ofNode (id : NodeId) (index : Nat) : PinRef := ⟨.node id, index⟩

def socket (index : Nat) : PinRef := ⟨.graph, index⟩

def node? (p : PinRef) : Option NodeId := p.owner.node?

end PinRef

/-- An input: a literal value, or a connection to an output. -/
structure Input where
  name : String
  type : DataType
  value : Option Value := none
  /-- The output that is read. -/
  source : Option PinRef := none
  /-- The channels of the source that are read, if not the whole of it. -/
  channels : Option String := none
  uniform : Bool := false
  /-- Where the input stands in the document. -/
  path : String := ""
  /-- The variable that stands for the input in generated code, if there is one. -/
  variableName : String := ""
  deriving DecidableEq

/-- An output, or an input socket of a graph. -/
structure Output where
  name : String
  type : DataType
  /-- The inputs that read the output, in the order in which they were connected. -/
  readers : List PinRef := []
  /-- The variable that stands for the output in generated code. -/
  variableName : String := ""
  /-- The default value of an input socket. -/
  value : Option Value := none
  uniform : Bool := false
  /-- Where the input socket stands in the document. -/
  path : String := ""
  deriving DecidableEq

instance : Inhabited Input := ⟨{ name := "", type := .float }⟩
instance : Inhabited Output := ⟨{ name := "", type := .float }⟩

namespace Input

def isConnected (i : Input) : Bool := i.source.isSome

/-- The node whose output is read. -/
def sourceNode? (i : Input) : Option NodeId := i.source.bind PinRef.node?

end Input

/-- Whether an input of some type with some channels can read an output of another type: all channels exist there and
are as many as the input has components, or, without channels, the types are equal. -/
def compatible (source : DataType) (channels : Option String) (target : DataType) : Bool :=
  match channels with
  | some channels =>
    channels.toList.all (fun c => (source.channelIndex? c).isSome) && channels.toList.length == target.size
  | none => source == target

end ShadeGraph
