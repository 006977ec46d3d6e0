import HeaderApi.Text.Basic

/-!
# Command line arguments

Options have a long form and most have a short one.  Short ones can be bundled.  The value of an
option is the next argument, or follows in the same one: behind an equals sign, which the short form
can do without.  No option is given twice, and `--` ends the options.
-/

namespace HeaderApi.CommandLine

inductive Flag where
  | runExamples
  | verbose
  | quiet
  | help
deriving DecidableEq

/-- Options that take a value. -/
inductive Setting where
  | output
  | indent
  | libPrefix
deriving DecidableEq

inductive Switch where
  | flag (f : Flag)
  | setting (s : Setting)
deriving DecidableEq

namespace Switch

def ofShort? : Char → Option Switch
  | 'o' => some (.setting .output)
  | 'i' => some (.setting .indent)
  | 't' => some (.flag .runExamples)
  | 'v' => some (.flag .verbose)
  | 'q' => some (.flag .quiet)
  | 'h' => some (.flag .help)
  | _ => none

def longForms : List (Text × Switch) :=
  [("output".toList, .setting .output), ("indent".toList, .setting .indent),
   ("lib-prefix".toList, .setting .libPrefix), ("run-tests".toList, .flag .runExamples),
   ("verbose".toList, .flag .verbose), ("quiet".toList, .flag .quiet), ("help".toList, .flag .help)]

def ofLong? (name : Text) : Option Switch := longForms.lookup name

end Switch

structure Arguments where
  inputs : List Text := []
  output : Option Text := none
  indent : Option Int := none
  libPrefix : Option Text := none
  flags : List Flag := []
deriving DecidableEq

/-- Why arguments do not make a run. -/
inductive Refusal where
  | unknownOption (argument : Text)
  | missingValue (setting : Setting)
  | invalidValue (setting : Setting) (value : Text)
  | unexpectedValue (flag : Flag)
  | repeatedSetting (setting : Setting)
  | repeatedFlag (flag : Flag)
  | helpWanted
deriving DecidableEq

namespace Setting

def longForm : Setting → Text
  | .output => "--output".toList
  | .indent => "--indent".toList
  | .libPrefix => "--lib-prefix".toList

end Setting

namespace Flag

def longForm : Flag → Text
  | .runExamples => "--run-tests".toList
  | .verbose => "--verbose".toList
  | .quiet => "--quiet".toList
  | .help => "--help".toList

end Flag

def usage : Text :=
  ("Usage: header-api [OPTIONS] [FILES]...\n\n" ++
   "Files may be headers, directories and glob patterns.\n\n" ++
   "  -o, --output OUTPUT        write the model to a file\n" ++
   "  -i, --indent INDENT        spaces for each level of nesting; negative means compact\n" ++
   "  -t, --run-tests            run the usage examples\n" ++
   "      --lib-prefix PREFIX    leave the prefix of a library out of the keys of types\n" ++
   "  -v, --verbose              log everything\n" ++
   "  -q, --quiet                log errors only\n" ++
   "  -h, --help                 print this help\n").toList

namespace Refusal

def message : Refusal → Text
  | .unknownOption argument => "error: unexpected argument ".toList ++ argument ++ "\n".toList
  | .missingValue s => "error: a value is required for ".toList ++ s.longForm ++ "\n".toList
  | .invalidValue s value =>
    "error: invalid value ".toList ++ value ++ " for ".toList ++ s.longForm ++ "\n".toList
  | .unexpectedValue f => "error: no value is allowed for ".toList ++ f.longForm ++ "\n".toList
  | .repeatedSetting s => "error: repeated argument ".toList ++ s.longForm ++ "\n".toList
  | .repeatedFlag f => "error: repeated argument ".toList ++ f.longForm ++ "\n".toList
  | .helpWanted => usage

end Refusal

/-- A number of decimal digits, at least one. -/
def readDigits? (t : Text) : Option Nat :=
  if t ≠ [] ∧ t.all Char.isDigit then
    some (t.foldl (fun n c => 10 * n + (c.toNat - '0'.toNat)) 0)
  else none

/-- A whole number of 32 bits, with or without a sign. -/
def readInt32? (t : Text) : Option Int :=
  match t with
  | '-' :: r => (readDigits? r).bind fun n => if n ≤ 2147483648 then some (-n) else none
  | '+' :: r => (readDigits? r).bind fun n => if n < 2147483648 then some n else none
  | _ => (readDigits? t).bind fun n => if n < 2147483648 then some n else none

namespace Arguments

def setFlag (a : Arguments) (f : Flag) : Except Refusal Arguments :=
  if f = .help then .error .helpWanted
  else if f ∈ a.flags then .error (.repeatedFlag f)
  else .ok { a with flags := a.flags ++ [f] }

/-- Gives a setting its value.  A path to write to cannot be empty. -/
def setValue (a : Arguments) (s : Setting) (value : Text) : Except Refusal Arguments :=
  match s with
  | .output =>
    if value = [] then .error (.invalidValue s value)
    else if a.output.isSome then .error (.repeatedSetting s)
    else .ok { a with output := some value }
  | .indent =>
    match readInt32? value with
    | none => .error (.invalidValue s value)
    | some n =>
      if a.indent.isSome then .error (.repeatedSetting s) else .ok { a with indent := some n }
  | .libPrefix =>
    if a.libPrefix.isSome then .error (.repeatedSetting s)
    else .ok { a with libPrefix := some value }

/-- Reads bundled short options, up to one whose value is the next argument. -/
def readBundle (argument : Text) (a : Arguments) :
    Text → Except Refusal (Arguments × Option Setting)
  | [] => .ok (a, none)
  | c :: t =>
    match Switch.ofShort? c with
    | none => .error (.unknownOption argument)
    | some (.flag f) =>
      match a.setFlag f with
      | .error e => .error e
      | .ok a => readBundle argument a t
    | some (.setting s) =>
      match t with
      | [] => .ok (a, some s)
      | '=' :: value | value => (a.setValue s value).map (·, none)

/-- Reads a long option without its dashes. -/
def readLong (argument : Text) (a : Arguments) (body : Text) :
    Except Refusal (Arguments × Option Setting) :=
  let (name, value) :=
    match Text.cutAt "=".toList body with
    | some (name, value) => (name, some value)
    | none => (body, none)
  match Switch.ofLong? name, value with
  | none, _ => .error (.unknownOption argument)
  | some (.flag f), none => (a.setFlag f).map (·, none)
  | some (.flag f), some _ => .error (.unexpectedValue f)
  | some (.setting s), none => .ok (a, some s)
  | some (.setting s), some value => (a.setValue s value).map (·, none)

/-- Reads one argument that is not `--`; the next one may be wanted as the value of a setting. -/
def readOne (a : Arguments) (argument : Text) : Except Refusal (Arguments × Option Setting) :=
  match argument with
  | '-' :: '-' :: body => a.readLong argument body
  | '-' :: c :: body => a.readBundle argument (c :: body)
  | _ => .ok ({ a with inputs := a.inputs ++ [argument] }, none)

/-- Whether an argument can be the value of a setting: options cannot, but numbers can have a
sign. -/
def isValueFor (s : Setting) : Text → Bool
  | '-' :: _ :: _ => s = .indent
  | _ => true

/-- Reads arguments; the first one may be the value of a setting. -/
def readFrom (a : Arguments) : (wanting : Option Setting) → List Text → Except Refusal Arguments
  | none, [] => .ok a
  | some s, [] => .error (.missingValue s)
  | some s, value :: rest =>
    if isValueFor s value then
      match a.setValue s value with
      | .error e => .error e
      | .ok a => readFrom a none rest
    else .error (.missingValue s)
  | none, argument :: rest =>
    if argument = "--".toList then .ok { a with inputs := a.inputs ++ rest }
    else
      match a.readOne argument with
      | .error e => .error e
      | .ok (a, wanting) => readFrom a wanting rest

def read (arguments : List Text) : Except Refusal Arguments := readFrom {} none arguments

end Arguments

end HeaderApi.CommandLine
