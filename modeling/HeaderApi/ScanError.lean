import HeaderApi.Text.Basic

/-!
# Scan errors

What makes the scan of a header fail.
-/

namespace HeaderApi

/-- Why a file cannot be read or written. -/
inductive FileError where
  /-- The operating system refuses, for a reason that it gives with its error code. -/
  | system (code : Nat) (reason : Text)
  /-- No call of the operating system fails, but the path or what was read cannot be used. -/
  | unusable (reason : Text)
deriving DecidableEq

namespace FileError

def message : FileError → Text
  | .system code reason => reason ++ " (os error ".toList ++ Text.decimal code ++ ")".toList
  | .unusable reason => reason

/-! Errors whose reasons are fixed, as Linux words them. -/

def notFound : FileError := .system 2 "No such file or directory".toList

def notADirectory : FileError := .system 20 "Not a directory".toList

def isADirectory : FileError := .system 21 "Is a directory".toList

def nameTooLong : FileError := .system 36 "File name too long".toList

def nulInPath : FileError := .unusable "file name contained an unexpected NUL byte".toList

def notUtf8 : FileError := .unusable "stream did not contain valid UTF-8".toList

end FileError

inductive ScanError where
  | unreadable (path : Text) (reason : FileError)
  /-- A function belongs to a class that the header does not declare. -/
  | unknownClass (owner function : Text) (known : List Text)
  /-- A parameter, of a whole parameter list, is neither `type name` nor `...`. -/
  | malformedParameter (item params : Text)
deriving DecidableEq

namespace ScanError

def message : ScanError → Text
  | .unreadable path reason =>
    "IO error reading ".toList ++ path ++ ": ".toList ++ reason.message
  | .unknownClass owner function known =>
    "no such class ".toList ++ owner ++ " for ".toList ++ function ++ " (known types: ".toList ++
      Text.joinWith ", ".toList known ++ ")".toList
  | .malformedParameter item params =>
    "malformed parameter `".toList ++ item ++ "` in (".toList ++ params ++ ")".toList

end ScanError

end HeaderApi
