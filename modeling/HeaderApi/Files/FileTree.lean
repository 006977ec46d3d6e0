import HeaderApi.Files.FileSystem
import HeaderApi.Files.Path

/-!
# Trees of files

A file system in memory: files with their bytes, and directories, under a root that is the working
directory.  Above the root there is one directory, which is empty; what is written there is not kept.
-/

namespace HeaderApi

inductive FileTree where
  | file (content : ByteArray)
  | directory (entries : List (Text × FileTree))

namespace FileTree

def empty : FileTree := .directory []

def entries : FileTree → List (Text × FileTree)
  | .file _ => []
  | .directory entries => entries

def kind : FileTree → FileKind
  | .file _ => .file
  | .directory _ => .directory

def child? (t : FileTree) (name : Text) : Option FileTree :=
  (t.entries.find? fun e => e.1 = name).map Prod.snd

/-- What names lead to from the root of a tree. -/
def node? (t : FileTree) : (names : List Text) → Option FileTree
  | [] => some t
  | name :: names => (t.child? name).bind fun child => child.node? names

/-- Entries in which `name` stands for `t`. -/
def setEntry (name : Text) (t : FileTree) : List (Text × FileTree) → List (Text × FileTree)
  | [] => [(name, t)]
  | e :: es => if e.1 = name then (name, t) :: es else e :: setEntry name t es

/-- The tree with `new` where names lead to, and directories on the way there. -/
def put (new : FileTree) : (names : List Text) → FileTree → FileTree
  | [], _ => new
  | name :: names, t =>
    .directory (setEntry name (put new names ((t.child? name).getD empty)) t.entries)

theorem child?_setEntry (name : Text) (new : FileTree) (es : List (Text × FileTree)) :
    child? (.directory (setEntry name new es)) name = some new := by
  induction es with
  | nil => simp [child?, entries, setEntry]
  | cons e es ih =>
    by_cases h : e.1 = name
    · simp [child?, entries, setEntry, h]
    · simpa [child?, entries, setEntry, h] using ih

theorem node?_put (new : FileTree) (names : List Text) (t : FileTree) :
    (put new names t).node? names = some new := by
  induction names generalizing t with
  | nil => rfl
  | cons name names ih => simp [put, node?, child?_setEntry, ih]

/-- The names that lead to the node of a listed path. -/
def namesOf (path : Text) : List Text :=
  (Path.segments path).filter fun s => s ≠ [] ∧ s ≠ ".".toList

def addFile (t : FileTree) (path : Text) (content : ByteArray) : FileTree :=
  put (.file content) (namesOf path) t

/-- The tree with a directory at a path; what it held before stays. -/
def addDirectory (t : FileTree) (path : Text) : FileTree :=
  match t.node? (namesOf path) with
  | some _ => t
  | none => put empty (namesOf path) t

/-- A place in a tree, or somewhere above its root. -/
inductive Place where
  | above
  | under (names : List Text)

/-- How far a path has been followed, and what is there. -/
structure Spot where
  place : Place
  node? : Option FileTree

namespace Spot

def above : Spot := ⟨.above, some empty⟩

/-- What the names lead to from the root. -/
def under (t : FileTree) (names : List Text) : Spot := ⟨.under names, t.node? names⟩

def parent (t : FileTree) : Place → Spot
  | .above | .under [] => above
  | .under names => under t names.dropLast

/-- No name may take more bytes than this. -/
def maxNameSize : Nat := 255

/-- Follows a segment of a path, which only a directory allows. -/
def step (t : FileTree) (s : Spot) (segment : Text) : Except FileError Spot :=
  match s.node? with
  | none => .error .notFound
  | some (.file _) => .error .notADirectory
  | some (.directory entries) =>
    if segment = [] ∨ segment = ".".toList then .ok s
    else if segment = "..".toList then .ok (parent t s.place)
    else if maxNameSize < Text.byteSize segment then .error .nameTooLong
    else
      match s.place with
      | .above => .ok ⟨.above, none⟩
      | .under names => .ok ⟨.under (names ++ [segment]), child? (.directory entries) segment⟩

end Spot

/-- No path may take this many bytes. -/
def maxPathSize : Nat := 4096

/-- Refuses a path that is empty or takes too many bytes. -/
def checkSize (path : Text) : Except FileError Unit :=
  if path = [] then .error .notFound
  else if maxPathSize ≤ Text.byteSize path then .error .nameTooLong
  else .ok ()

/-- Follows a path segment by segment. -/
def follow (t : FileTree) (path : Text) : Except FileError Spot :=
  (Path.segments path).foldlM (Spot.step t)
    (if Path.isAbsolute path then Spot.above else Spot.under t [])

/-- The spot that a path leads to; there need not be anything there. -/
def spot (t : FileTree) (path : Text) : Except FileError Spot := do
  checkSize path
  t.follow path

def locate (t : FileTree) (path : Text) : Except FileError FileTree :=
  match t.spot path with
  | .error e => .error e
  | .ok s =>
    match s.node? with
    | some n => .ok n
    | none => .error .notFound

def kind? (t : FileTree) (path : Text) : Option FileKind :=
  match t.locate path with
  | .ok n => some n.kind
  | .error _ => none

def names (t : FileTree) (dir : Text) : List Text :=
  match t.locate dir with
  | .ok n => n.entries.map Prod.fst
  | .error _ => []

def read (t : FileTree) (path : Text) : Except FileError Text :=
  match t.locate path with
  | .error e => .error e
  | .ok (.directory _) => .error .isADirectory
  | .ok (.file content) =>
    match String.fromUTF8? content with
    | some s => .ok s.toList
    | none => .error .notUtf8

/-- What stands before the last name of a path, slashes at the end of the path aside. -/
def leading (path : Text) : Text :=
  ((path.reverse.dropWhile (· = '/')).dropWhile (· ≠ '/')).reverse

/-- Writes a file; the directory that it goes to must be there.  Only a directory has a path that
ends with a slash, whatever its last name is. -/
def write (t : FileTree) (path content : Text) : Except FileError FileTree := do
  checkSize path
  if path.getLast? = some '/' then
    let _ ← t.follow (leading path)
    .error .isADirectory
  else
    match ← t.follow path with
    | ⟨_, some (.directory _)⟩ => .error .isADirectory
    | ⟨.above, _⟩ => .ok t
    | ⟨.under names, _⟩ => .ok (put (.file (String.ofList content).toUTF8) names t)

def fileSystem : FileSystem (StateM FileTree) where
  kind? path := return (← get).kind? path
  names dir := return (← get).names dir
  read path := return (← get).read path
  write path content := do
    match (← get).write path content with
    | .ok t => set t; pure (.ok ())
    | .error e => pure (.error e)

mutual

/-- The files of a tree that `names` lead to, with the names that lead to each. -/
def files (names : List Text) : FileTree → List (List Text × ByteArray)
  | .file content => [(names, content)]
  | .directory entries => filesOfEntries names entries

def filesOfEntries (names : List Text) : List (Text × FileTree) → List (List Text × ByteArray)
  | [] => []
  | (name, t) :: es => files (names ++ [name]) t ++ filesOfEntries names es

end

/-- The files of `t` that are not in `old` with the same content. -/
def changes (old t : FileTree) : List (List Text × ByteArray) :=
  (files [] t).filter fun (names, content) =>
    match old.node? names with
    | some (.file before) => !(before == content)
    | _ => true

end FileTree

end HeaderApi
