import HeaderApi.CommandLine.Log
import HeaderApi.Glob.Expand

/-!
# Inputs

An input is the path of a file, a directory, which stands for the headers in it, or a glob pattern.
-/

namespace HeaderApi.CommandLine

variable {m : Type → Type} [Monad m] (fs : FileSystem m)

/-- What inputs stand for, up to the first pattern that cannot be read. -/
structure Inputs where
  paths : List Text := []
  log : List LogEntry := []
  failure : Option (Text × Glob.PatternError) := none

namespace Inputs

def isHeader (path : Text) : Bool := Path.extension? path == some "h".toList

/-- The headers in a directory, in the order of their paths. -/
def ofDirectory (dir : Text) : m (List Text) := do
  let paths := (← fs.names dir).map (Path.join dir)
  return Path.sort (← (paths.filter isHeader).filterM fs.isFile)

def ofPattern (pattern : Text) : m Inputs := do
  match Glob.Query.ofPattern pattern with
  | .error e => return { failure := some (pattern, e) }
  | .ok query =>
    let paths ← query.files fs
    let noted : LogEntry := { level := .warn, message := "no files matched: ".toList ++ pattern }
    return { paths := Path.sort paths, log := if paths = [] then [noted] else [] }

def ofInput (input : Text) : m Inputs := do
  if ← fs.isFile input then return { paths := [input] }
  else if ← fs.isDirectory input then return { paths := ← ofDirectory fs input }
  else ofPattern fs input

def ofInputs : List Text → m Inputs
  | [] => return {}
  | input :: inputs => do
    let first ← ofInput fs input
    if first.failure.isSome then return first
    let rest ← ofInputs inputs
    return ⟨first.paths ++ rest.paths, first.log ++ rest.log, rest.failure⟩

end Inputs

end HeaderApi.CommandLine
