import ShadeGraph.Code
import ShadeGraph.Command.Arguments
import ShadeGraph.Command.Run
import ShadeGraph.DataType
import ShadeGraph.Dialect.Basic
import ShadeGraph.Dialect.Glsl
import ShadeGraph.Dialect.Mdl
import ShadeGraph.Dialect.Osl
import ShadeGraph.Document.Basic
import ShadeGraph.Document.Standard
import ShadeGraph.Error
import ShadeGraph.Files.Library
import ShadeGraph.Files.Path
import ShadeGraph.Files.Tree
import ShadeGraph.Fragment.Basic
import ShadeGraph.Fragment.Digest
import ShadeGraph.Graph.Basic
import ShadeGraph.Graph.Build
import ShadeGraph.Graph.Connection
import ShadeGraph.Graph.Flatten
import ShadeGraph.Graph.Naming
import ShadeGraph.Graph.Pin
import ShadeGraph.Graph.Schedule
import ShadeGraph.Graph.Scope
import ShadeGraph.Graph.Walk
import ShadeGraph.Language
import ShadeGraph.Main
import ShadeGraph.Number.Decimal
import ShadeGraph.Number.Format
import ShadeGraph.Number.Reading
import ShadeGraph.Number.Single
import ShadeGraph.Procedural
import ShadeGraph.Proofs.Code.WellScoped
import ShadeGraph.Proofs.Dialect.Names
import ShadeGraph.Proofs.Dialect.Swizzle
import ShadeGraph.Proofs.Document.Import
import ShadeGraph.Proofs.Fragment.Bindings
import ShadeGraph.Proofs.Graph.Acyclic
import ShadeGraph.Proofs.Graph.Address
import ShadeGraph.Proofs.Graph.Branches
import ShadeGraph.Proofs.Graph.Build
import ShadeGraph.Proofs.Graph.Canonical
import ShadeGraph.Proofs.Graph.Channels
import ShadeGraph.Proofs.Graph.Closed
import ShadeGraph.Proofs.Graph.Correspondence
import ShadeGraph.Proofs.Graph.Flatten
import ShadeGraph.Proofs.Graph.Frame
import ShadeGraph.Proofs.Graph.Identity
import ShadeGraph.Proofs.Graph.Inlining
import ShadeGraph.Proofs.Graph.Interface
import ShadeGraph.Proofs.Graph.Inversion
import ShadeGraph.Proofs.Graph.Links
import ShadeGraph.Proofs.Graph.Literals
import ShadeGraph.Proofs.Graph.Lookup
import ShadeGraph.Proofs.Graph.Loops
import ShadeGraph.Proofs.Graph.Meaning
import ShadeGraph.Proofs.Graph.Naming
import ShadeGraph.Proofs.Graph.Nesting
import ShadeGraph.Proofs.Graph.Normal
import ShadeGraph.Proofs.Graph.Renaming
import ShadeGraph.Proofs.Graph.Rewiring
import ShadeGraph.Proofs.Graph.Schedule
import ShadeGraph.Proofs.Graph.Scoping
import ShadeGraph.Proofs.Graph.Sources
import ShadeGraph.Proofs.Graph.Supply
import ShadeGraph.Proofs.Graph.Typing
import ShadeGraph.Proofs.Graph.Unused
import ShadeGraph.Proofs.Graph.Update
import ShadeGraph.Proofs.Graph.Variables
import ShadeGraph.Proofs.Graph.Walk
import ShadeGraph.Proofs.Graph.Writable
import ShadeGraph.Proofs.Number.Nearest
import ShadeGraph.Proofs.Number.Text
import ShadeGraph.Proofs.Outcome
import ShadeGraph.Proofs.Ron.Lexeme
import ShadeGraph.Proofs.Ron.RoundTrip
import ShadeGraph.Proofs.Ron.Tree
import ShadeGraph.Proofs.Shader.Call
import ShadeGraph.Proofs.Shader.Called
import ShadeGraph.Proofs.Shader.Definitions
import ShadeGraph.Proofs.Shader.Expression
import ShadeGraph.Proofs.Shader.Functions
import ShadeGraph.Proofs.Shader.Generate
import ShadeGraph.Proofs.Shader.Identities
import ShadeGraph.Proofs.Shader.Layout
import ShadeGraph.Proofs.Shader.Linkage
import ShadeGraph.Proofs.Shader.Provenance
import ShadeGraph.Proofs.Shader.Renaming
import ShadeGraph.Proofs.Shader.Session
import ShadeGraph.Proofs.Shader.Steps
import ShadeGraph.Proofs.Simulation
import ShadeGraph.Proofs.Text.Fresh
import ShadeGraph.Proofs.Text.Replace
import ShadeGraph.Proofs.Value.RoundTrip
import ShadeGraph.Ron.Basic
import ShadeGraph.Ron.Coding
import ShadeGraph.Ron.Lexeme
import ShadeGraph.Ron.Number
import ShadeGraph.Ron.Reading
import ShadeGraph.Shader.Call
import ShadeGraph.Shader.Declaration
import ShadeGraph.Shader.Expression
import ShadeGraph.Shader.Generate
import ShadeGraph.Stage
import ShadeGraph.Text.Basic
import ShadeGraph.Text.Identifier
import ShadeGraph.Text.Printable
import ShadeGraph.Value.Basic
import ShadeGraph.Value.Text
import ShadeGraph.Proofs.Dialect.Quoted
import ShadeGraph.Proofs.Document.Merge
import ShadeGraph.Proofs.Shader.Blur
import ShadeGraph.Proofs.Shader.Template
import ShadeGraph.Proofs.Value.Stable
import ShadeGraph.Proofs.Shader.Switch
import ShadeGraph.Proofs.Code.Scopes
import ShadeGraph.Proofs.Shader.Scopes
import ShadeGraph.Proofs.Graph.Finished
import ShadeGraph.Proofs.Shader.Lengths
import ShadeGraph.Proofs.Shader.Redeclared
import ShadeGraph.Proofs.Value.Literal
import ShadeGraph.Proofs.Files.Library
import ShadeGraph.Proofs.Graph.Merging
import ShadeGraph.Proofs.Shader.Orderly
