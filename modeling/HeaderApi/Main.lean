import HeaderApi.CommandLine.Run

/-! # The program -/

namespace HeaderApi

namespace Machine

/-- What the machine says of an error, with the code of its system where there is one. -/
def reasonOf : IO.Error → FileError
  | .alreadyExists _ code details | .otherError code details | .resourceBusy code details
  | .resourceVanished code details | .unsupportedOperation code details
  | .hardwareFault code details | .unsatisfiedConstraints code details
  | .illegalOperation code details | .protocolError code details | .timeExpired code details
  | .interrupted _ code details | .noFileOrDirectory _ code details
  | .invalidArgument _ code details | .permissionDenied _ code details
  | .resourceExhausted _ code details | .inappropriateType _ code details
  | .noSuchThing _ code details => .system code.toNat details.toList
  | .unexpectedEof => .unusable "unexpected end of file".toList
  | .userError reason => .unusable reason.toList

def kind? (path : Text) : IO (Option FileKind) := do
  try
    let real ← IO.FS.realPath (String.ofList path)
    let info ← real.metadata
    match info.type with
    | .file => return some .file
    | .dir => return some .directory
    | _ => return none
  catch _ => return none

def names (dir : Text) : IO (List Text) := do
  try
    let real ← IO.FS.realPath (String.ofList dir)
    return (← real.readDir).toList.map fun entry => entry.fileName.toList
  catch _ => return []

def read (path : Text) : IO (Except FileError Text) := do
  if (← kind? path) = some .directory then
    return .error .isADirectory
  try
    match String.fromUTF8? (← IO.FS.readBinFile (String.ofList path)) with
    | some s => return .ok s.toList
    | none => return .error .notUtf8
  catch e => return .error (reasonOf e)

def write (path content : Text) : IO (Except FileError Unit) := do
  if (← kind? path) = some .directory then
    return .error .isADirectory
  try
    IO.FS.writeFile (String.ofList path) (String.ofList content)
    return .ok ()
  catch e => return .error (reasonOf e)

/-- The files of the machine. -/
def fileSystem : FileSystem IO := { kind?, names, read, write }

end Machine

def printOut (t : Text) : IO Unit := do
  let out ← IO.getStdout
  out.putStr (String.ofList t)
  out.flush

def printLog (t : Text) : IO Unit := do
  (← IO.getStderr).putStr (String.ofList t)

end HeaderApi

open HeaderApi in
def main (arguments : List String) : IO UInt32 := do
  match CommandLine.Arguments.read (arguments.map String.toList) with
  | .error .helpWanted =>
    printOut CommandLine.usage
    return 0
  | .error refusal =>
    printLog refusal.message
    return 2
  | .ok a =>
    let outcome ← CommandLine.run Machine.fileSystem a
    printLog outcome.log
    printOut outcome.output
    return outcome.exitCode.toUInt32
