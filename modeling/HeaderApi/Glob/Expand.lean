import HeaderApi.Files.FileSystem
import HeaderApi.Files.Path
import HeaderApi.Glob.Match

/-! # The files that a glob pattern names -/

namespace HeaderApi.Glob

variable {m : Type → Type} [Monad m] (fs : FileSystem m)

/-- Whether a path spells the working directory. -/
def isHere (dir : Text) : Bool := Path.components dir == [.here]

/-- The path of `name` in `dir`; paths from the working directory need not mention it. -/
def under (dir name : Text) : Text := if isHere dir then name else Path.join dir name

def childPaths (dir : Text) : m (List (Text × Text)) := do
  if ← fs.isDirectory dir then
    return (← fs.names dir).map fun name => (name, under dir name)
  else
    return []

/-- No path of more than 4096 bytes can be opened, so no directory lies deeper than this. -/
def maxDepth : Nat := 2048

/-- A directory and the directories below it, at most `depth` levels of them. -/
def directories : (depth : Nat) → (dir : Text) → m (List Text)
  | 0, _ => return []
  | depth + 1, dir => do
    if ← fs.isDirectory dir then
      let below ← (← childPaths fs dir).flatMapM fun (_, path) => directories depth path
      return dir :: below
    else
      return []

/-- The children of a directory whose names are what tokens stand for. -/
def matchingChildren (name : List Token) (dir : Text) : m (List Text) := do
  return ((← childPaths fs dir).filter fun (n, _) => matchesTokens name n).map Prod.snd

/-- The dots that a pattern with a leading dot may stand for. -/
def matchingDots (name : List Token) (dir : Text) : m (List Text) := do
  if (name.head? == some (.char '.')) && (← fs.isDirectory dir) then
    return (["..".toList, ".".toList].filter (matchesTokens name)).map (Path.join dir)
  else
    return []

/-- Where a step leads from a directory; of two spellings of a path, the one through a dot is
first. -/
def Step.follow (dir : Text) : Step → m (List Text)
  | .child name => do
    let path := under dir name
    let found ←
      if name = ".".toList ∨ name = "..".toList then fs.isDirectory dir else fs.exists? path
    return if found then [path] else []
  | .children name => return (← matchingDots fs name dir) ++ (← matchingChildren fs name dir)
  | .descendants name => do
    (← directories fs maxDepth dir).flatMapM (matchingChildren fs name)

/-- Where steps lead from directories. -/
def follow : List Step → (dirs : List Text) → m (List Text)
  | [], dirs => return dirs
  | step :: steps, dirs => do
    let next ← dirs.flatMapM (step.follow fs)
    follow steps next.eraseDups

/-- A pattern, ready to be looked up: where to start, and the steps to the files, if the pattern can
name any. -/
structure Query where
  start : Text
  route : Option (List Step)

/-- The components of a pattern behind its root. -/
def componentsOf (pattern : Text) : List Text :=
  let parts := Path.segments (if Path.isAbsolute pattern then pattern.drop 1 else pattern)
  if 1 < parts.length ∧ parts.getLast? = some [] then parts.dropLast else parts

/-- Reads the components of a pattern up to the first one that is at fault. -/
def readComponents : List Text → Except PatternError (List (List Token))
  | [] => .ok []
  | part :: parts =>
    match tokens part with
    | .error e => .error e
    | .ok ts => (readComponents parts).map (ts :: ·)

def Query.ofPattern (pattern : Text) : Except PatternError Query :=
  match tokens pattern with
  | .error e => .error e
  | .ok _ =>
    (readComponents (componentsOf pattern)).map fun parts =>
      { start := if Path.isAbsolute pattern then "/".toList else ".".toList
        route := if pattern.getLast? = some '/' then none else steps? parts }

/-- The files that a pattern names, in no particular order. -/
def Query.files (q : Query) : m (List Text) :=
  match q.route with
  | none => return []
  | some steps => do (← follow fs steps [q.start]).filterM fs.isFile

end HeaderApi.Glob
