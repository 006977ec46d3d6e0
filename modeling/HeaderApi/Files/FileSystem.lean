import HeaderApi.ScanError

/-!
# File systems

What the scanner asks of the file system it works in.  Questions are asked in a monad, so that the
same program runs on the files of the machine and on a tree of files held in memory.  A system is
only ever asked about paths that it can take as they are (`isAskable`).
-/

namespace HeaderApi

inductive FileKind where
  | file
  | directory
deriving DecidableEq

structure FileSystem (m : Type → Type) where
  kind? : (path : Text) → m (Option FileKind)
  /-- The names in a directory, in any order. -/
  names : (dir : Text) → m (List Text)
  read : (path : Text) → m (Except FileError Text)
  write : (path content : Text) → m (Except FileError Unit)

namespace FileSystem

/-- Systems take a NUL for the end of a path, so a path that holds one cannot be asked about. -/
def isAskable (path : Text) : Bool := path.all (· ≠ '\x00')

variable {m : Type → Type} [Monad m] (fs : FileSystem m)

/-- What is at a path; nothing is at one that cannot be asked about. -/
def kindOf? (path : Text) : m (Option FileKind) :=
  if isAskable path then fs.kind? path else return none

def isFile (path : Text) : m Bool := return (← fs.kindOf? path) = some .file

def isDirectory (path : Text) : m Bool := return (← fs.kindOf? path) = some .directory

def exists? (path : Text) : m Bool := return (← fs.kindOf? path).isSome

def readFile (path : Text) : m (Except FileError Text) :=
  if isAskable path then fs.read path else return .error .nulInPath

def writeFile (path content : Text) : m (Except FileError Unit) :=
  if isAskable path then fs.write path content else return .error .nulInPath

end FileSystem

end HeaderApi
