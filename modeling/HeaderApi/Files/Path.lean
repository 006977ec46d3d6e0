import HeaderApi.Text.Basic

/-!
# Paths

A path is a text; names in it are separated by slashes.  Two spellings are the same path when they
have the same components: repeated slashes, slashes at the end, and dots other than one at the
beginning do not count.
-/

namespace HeaderApi.Path

inductive Component where
  | root
  | here
  | parent
  | name (n : Text)
deriving DecidableEq

namespace Component

/-- The root comes first, then the dots, then names. -/
def rank : Component → Nat
  | .root => 0
  | .here => 1
  | .parent => 2
  | .name _ => 3

def name? : Component → Option Text
  | .name n => some n
  | _ => none

def compare (a b : Component) : Ordering :=
  (Ord.compare a.rank b.rank).then
    (List.compareLex Ord.compare (a.name?.getD []) (b.name?.getD []))

end Component

def segments (p : Text) : List Text := p.splitOn '/'

/-- The component of a segment that does not stand at the beginning. -/
def innerComponent? (segment : Text) : Option Component :=
  if segment = [] ∨ segment = ".".toList then none
  else if segment = "..".toList then some .parent
  else some (.name segment)

def components (p : Text) : List Component :=
  match segments p with
  | [] => []
  | first :: rest =>
    (if first = [] then (if rest = [] then [] else [.root])
      else if first = ".".toList then [.here]
      else (innerComponent? first).toList) ++ rest.filterMap innerComponent?

/-- Paths are ordered by their components. -/
def compare (a b : Text) : Ordering :=
  List.compareLex Component.compare (components a) (components b)

def sort (paths : List Text) : List Text :=
  paths.mergeSort fun a b => (compare a b).isLE

/-- The paths without repetitions, each in its first spelling. -/
def distinct (paths : List Text) : List Text :=
  ((paths.map fun p => (components p, p)).eraseDupsBy fun a b => a.1 == b.1).map Prod.snd

def isAbsolute (p : Text) : Bool := p.head? == some '/'

/-- The path of `name` in the directory `dir`. -/
def join (dir name : Text) : Text :=
  if isAbsolute name then name
  else if dir = [] ∨ dir.getLast? = some '/' then dir ++ name
  else dir ++ ['/'] ++ name

/-- The last component, if it is a name. -/
def fileName? (p : Text) : Option Text := (components p).getLast?.bind Component.name?

/-- A file name around its last dot; one that begins with its only dot has no extension. -/
def splitName (name : Text) : Text × Option Text :=
  let ending := (name.reverse.takeWhile (· ≠ '.')).reverse
  match Text.before? ending name with
  | some stemDot =>
    if stemDot.length ≤ 1 then (name, none) else (stemDot.dropLast, some ending)
  | none => (name, none)

def extension? (p : Text) : Option Text := (fileName? p).bind fun n => (splitName n).2

/-- The file name without its extension. -/
def stem? (p : Text) : Option Text := (fileName? p).map fun n => (splitName n).1

/-- A header is named after its file; a path without a file name stands for itself. -/
def moduleName (p : Text) : Text := (stem? p).getD p

end HeaderApi.Path
