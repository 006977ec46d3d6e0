import HeaderApi.CommandLine.Arguments
import HeaderApi.Scan.Batch

/-!
# The log

Progress and findings go to the log, a line each unless a message has line breaks of its own.
-/

namespace HeaderApi.CommandLine

inductive Level where
  | debug
  | warn
  | error
deriving DecidableEq

namespace Level

def label : Level → Text
  | .debug => "DEBUG".toList
  | .warn => "WARN".toList
  | .error => "ERROR".toList

/-- What is shown of a level: everything on demand, and in silence nothing but errors. -/
def isShown (flags : List Flag) (level : Level) : Bool :=
  if .verbose ∈ flags then true
  else if .quiet ∈ flags then level = .error
  else level ≠ .debug

end Level

structure LogEntry where
  level : Level
  message : Text
  fields : List (Text × Text) := []
deriving DecidableEq

namespace LogEntry

/-- Control characters that steer terminals are written by their codes in messages. -/
def shownChar (c : Char) : Text :=
  if c = '\x1b' ∨ c = '\x07' ∨ c = '\x08' ∨ c = '\x0c' ∨ c = '\x7f' then
    "\\x".toList ++ (if c.toNat < 16 then ['0'] else []) ++ Text.hexadecimal c.toNat
  else if 0x80 ≤ c.toNat ∧ c.toNat ≤ 0x9f then
    "\\u\x7b".toList ++ Text.hexadecimal c.toNat ++ "\x7d".toList
  else [c]

/-- The values of fields stand as they are, whatever characters they hold. -/
def render (e : LogEntry) : Text :=
  e.level.label ++ " ".toList ++ e.message.flatMap shownChar ++
    e.fields.flatMap (fun (name, value) => " ".toList ++ name ++ "=".toList ++ value) ++
    "\n".toList

def ofNote (n : Note) : LogEntry := { level := .debug, message := n.message, fields := n.fields }

def ofDiagnostic (path : Text) (d : Diagnostic) : LogEntry :=
  { level := .warn, message := path ++ ": ".toList ++ d.message }

def ofFailure (path : Text) (e : ScanError) : LogEntry :=
  { level := .error, message := "skipping ".toList ++ path ++ ": ".toList ++ e.message }

end LogEntry

/-- The log of a batch: its notes, what was found, and what failed. -/
def batchLog (b : Batch) : List LogEntry :=
  b.notes.map .ofNote ++ b.diagnostics.map (fun (path, d) => .ofDiagnostic path d) ++
    b.failures.map fun (path, e) => .ofFailure path e

def renderLog (flags : List Flag) (entries : List LogEntry) : Text :=
  (entries.filter fun e => e.level.isShown flags).flatMap LogEntry.render

end HeaderApi.CommandLine
