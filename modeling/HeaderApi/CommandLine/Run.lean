import HeaderApi.CommandLine.Examples
import HeaderApi.CommandLine.Inputs
import HeaderApi.Json.Model

/-! # Running the program -/

namespace HeaderApi.CommandLine

/-- What a run leaves behind, apart from a file that it may write. -/
structure Outcome where
  exitCode : Nat
  output : Text := []
  log : Text := []

/-- The last words of a run that cannot go on. -/
def complaint (what : Text) (cause : Option Text) : Text :=
  "Error: ".toList ++ what ++ "\n".toList ++
    match cause with
    | some c => "\nCaused by:\n    ".toList ++ c ++ "\n".toList
    | none => []

def runExamples (flags : List Flag) : Outcome where
  exitCode := if Example.all.all Example.holds then 0 else 1
  output := Example.summary Example.all
  log := renderLog flags ((Example.all.flatMap Example.notes).map .ofNote)

variable {m : Type → Type} [Monad m] (fs : FileSystem m)

/-- Reads and scans files. -/
def scanFiles (o : ScanOptions) (paths : List Text) : m Batch := do
  return Batch.ofFiles o (← paths.mapM fun path => return (path, ← fs.readFile path))

/-- Scans the inputs and writes their model. -/
def runScan (a : Arguments) : m Outcome := do
  let inputs ← Inputs.ofInputs fs a.inputs
  match inputs.failure with
  | some (pattern, e) =>
    return {
      exitCode := 1
      log := renderLog a.flags inputs.log ++
        complaint ("invalid glob pattern: ".toList ++ pattern) (some e.message) }
  | none =>
    let batch ← scanFiles fs ⟨a.libPrefix⟩ (Path.distinct inputs.paths)
    let log := renderLog a.flags (inputs.log ++ batchLog batch)
    let exitCode := if batch.failures = [] then 0 else 1
    let text := renderModules (a.indent.getD (-1)) batch.modules ++ "\n".toList
    match a.output with
    | none => return { exitCode, output := text, log }
    | some path =>
      match ← fs.writeFile path text with
      | .ok () => return { exitCode, log }
      | .error e =>
        return {
          exitCode := 1
          log := log ++ complaint ("failed to write ".toList ++ path) (some e.message) }

/-- Runs the program on arguments that were accepted. -/
def run (a : Arguments) : m Outcome :=
  if .runExamples ∈ a.flags then return runExamples a.flags
  else if a.inputs = [] then
    return { exitCode := 1, log := complaint "no input files given".toList none }
  else runScan fs a

end HeaderApi.CommandLine
