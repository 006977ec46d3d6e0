import HeaderApi.Files.Path
import HeaderApi.Scan.Module

/-!
# Scanning several headers

Each header is scanned by itself; one that fails does not keep the others from being scanned.  The
modules are collected by name, and of several modules of one name the last one counts.
-/

namespace HeaderApi

structure Batch where
  modules : OrderedMap Text ApiModule := ∅
  /-- Diagnostics with the paths of the headers. -/
  diagnostics : List (Text × Diagnostic) := []
  failures : List (Text × ScanError) := []
  notes : List Note := []

namespace Batch

/-- Scans the header that is read from a path. -/
def scanFile (o : ScanOptions) (path : Text) (content : Except FileError Text) : Scan ApiModule :=
  match content with
  | .error reason => Scan.fail (.unreadable path reason)
  | .ok t => ApiModule.ofText o (Path.moduleName path) t

def add (o : ScanOptions) (b : Batch) (file : Text × Except FileError Text) : Batch :=
  let (path, content) := file
  let s := scanFile o path content
  let b :=
    { b with
      diagnostics := b.diagnostics ++ s.diagnostics.map (path, ·)
      notes := b.notes ++ Note.scanning path :: s.notes }
  match s.result with
  | .error e => { b with failures := b.failures ++ [(path, e)] }
  | .ok m =>
    { b with
      modules := b.modules.insert m.name m
      diagnostics := b.diagnostics ++
        (b.modules.get? m.name).toList.map fun _ => (path, Diagnostic.moduleCollision m.name) }

/-- Scans files in order, each given by its path and what reading it gives. -/
def ofFiles (o : ScanOptions) (files : List (Text × Except FileError Text)) : Batch :=
  files.foldl (add o) {}

end Batch

end HeaderApi
