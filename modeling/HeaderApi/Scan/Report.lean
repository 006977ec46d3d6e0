import HeaderApi.Diagnostic
import HeaderApi.ScanError

/-!
# Reported computations

A scan may fail.  Whether it does or not, it leaves diagnostics and notes, in the order in which
they came up.
-/

namespace HeaderApi

/-- What a scan notes about its progress. -/
inductive Note where
  | scanning (path : Text)
  | indexed (symbol : Text) (start stop : Nat)
  | registered (cname key moduleName : Text)
  | reserved (cname : Text)
  | scanned (moduleName : Text) (types functions delegates : Nat)
deriving DecidableEq

namespace Note

def message : Note → Text
  | .scanning path => "scanning ".toList ++ path
  | .indexed symbol start stop =>
    "indexed ".toList ++ symbol ++ " from doc block at ".toList ++ Text.decimal start ++
      "..".toList ++ Text.decimal stop
  | .registered cname key _ =>
    "registered type ".toList ++ cname ++ " as ".toList ++ key
  | .reserved cname => "skipping reserved method ".toList ++ cname
  | .scanned _ _ _ _ => "scanned module".toList

/-- Named values that stand behind the message. -/
def fields : Note → List (Text × Text)
  | .registered _ _ moduleName => [("module".toList, moduleName)]
  | .scanned moduleName types functions delegates =>
    [("module".toList, Text.quoted moduleName), ("types".toList, Text.decimal types),
      ("functions".toList, Text.decimal functions), ("delegates".toList, Text.decimal delegates)]
  | _ => []

end Note

@[ext]
structure Scan (α : Type) where
  result : Except ScanError α
  diagnostics : List Diagnostic := []
  notes : List Note := []

namespace Scan

variable {α β : Type}

/-- Goes on from a result, if there is one, and keeps what was reported before. -/
def bind (x : Scan α) (f : α → Scan β) : Scan β :=
  match x.result with
  | .error e => ⟨.error e, x.diagnostics, x.notes⟩
  | .ok a =>
    let y := f a
    ⟨y.result, x.diagnostics ++ y.diagnostics, x.notes ++ y.notes⟩

instance : Monad Scan where
  pure a := ⟨.ok a, [], []⟩
  bind := bind

@[simp] theorem pure_def (a : α) : (pure a : Scan α) = ⟨.ok a, [], []⟩ := rfl

@[simp] theorem bind_ok (a : α) (ds : List Diagnostic) (ns : List Note) (f : α → Scan β) :
    (⟨.ok a, ds, ns⟩ : Scan α) >>= f =
      ⟨(f a).result, ds ++ (f a).diagnostics, ns ++ (f a).notes⟩ := rfl

@[simp] theorem bind_error (e : ScanError) (ds : List Diagnostic) (ns : List Note)
    (f : α → Scan β) : (⟨.error e, ds, ns⟩ : Scan α) >>= f = ⟨.error e, ds, ns⟩ := rfl

instance : LawfulMonad Scan := LawfulMonad.mk' _
  (fun x => by
    obtain ⟨result, ds, ns⟩ := x
    cases result <;> simp [Functor.map, bind])
  (fun a f => by simp)
  (fun x f g => by
    obtain ⟨result, ds, ns⟩ := x
    cases result with
    | error e => rfl
    | ok a =>
      simp only [bind_ok]
      obtain ⟨result', ds', ns'⟩ := f a
      cases result' <;> simp [List.append_assoc])

def ofExcept (result : Except ScanError α) : Scan α := ⟨result, [], []⟩

def fail (e : ScanError) : Scan α := ⟨.error e, [], []⟩

def report (diagnostics : List Diagnostic) : Scan Unit := ⟨.ok (), diagnostics, []⟩

def note (n : Note) : Scan Unit := ⟨.ok (), [], [n]⟩

end Scan

end HeaderApi
