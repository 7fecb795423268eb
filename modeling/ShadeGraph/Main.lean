import ShadeGraph.Command.Run

/-!
# The command line

Collects the files that a run of the command can read, runs it on them, and prints or writes what it leaves behind.
-/

namespace ShadeGraph.CommandLine

/-- The environment variable with further directories to look for files in. -/
def searchPathVariable : String := "ORDOPLAY_MATERIALX_SEARCH_PATH"

def entryOf (bytes : ByteArray) : FileEntry := ((String.fromUTF8? bytes).map FileEntry.text).getD .binary

/-- Adds what stands at a path, and for a directory everything below it. What cannot be read is left out. -/
partial def collect (t : FileTree) (path : String) : IO FileTree := do
  try
    let found ← IO.FS.realPath path
    if ← found.isDir then
      let mut t := (t.place path .directory).getD t
      for entry in ← found.readDir do
        t ← collect t (Path.join path entry.fileName)
      pure t
    else
      let bytes ← IO.FS.readBinFile path
      pure ((t.place path (entryOf bytes)).getD t)
  catch _ => pure t

/-- Adds a directory without what is below it. -/
def collectDirectory (t : FileTree) (path : String) : IO FileTree := do
  try
    let found ← IO.FS.realPath path
    if ← found.isDir then pure ((t.place path .directory).getD t) else pure t
  catch _ => pure t

/-- Adds a file at each place where it may be. -/
def collectCandidates (s : SearchPath) (t : FileTree) (name : String) : IO FileTree :=
  ((s.candidates name).filter (· != "")).foldlM collect t

/-- The files that a run can read: the options, the document, the libraries, and the source files that these name. -/
def collectFor (a : Command.Arguments) (s : SearchPath) : IO FileTree := do
  let t ← (a.document :: a.options.toList).foldlM collect {}
  let t ← a.libraries.foldlM (collectCandidates s) t
  let sources :=
    match a.loadDocument s t with
    | .ok d => d.sources.filterMap SourceDef.file
    | .error _ => []
  let t ← sources.foldlM (collectCandidates s) t
  let outputs := a.output.toList.flatMap fun path => path :: (Path.parent? path).toList
  (outputs.filter (· != "")).foldlM collectDirectory t

/-- Prints or writes what a run leaves behind, and gives its status. -/
def finish (outcome : Command.Outcome) : IO UInt32 := do
  IO.print outcome.printed
  for (path, text) in outcome.written do IO.FS.writeFile path text
  for failure in outcome.failure do IO.eprintln failure.text
  pure outcome.status.toUInt32

end ShadeGraph.CommandLine

open ShadeGraph in
def main (args : List String) : IO UInt32 := do
  let environment ← IO.getEnv CommandLine.searchPathVariable
  let files ←
    match Command.Arguments.read args with
    | .ok a => CommandLine.collectFor a (a.searchPathWith environment)
    | .error .help => pure {}
    | .error .usage =>
      IO.eprintln Command.usage
      pure {}
  CommandLine.finish (Command.run args environment files)
