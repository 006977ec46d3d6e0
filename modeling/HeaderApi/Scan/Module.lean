import HeaderApi.Code
import HeaderApi.Declaration.Declarations
import HeaderApi.Model
import HeaderApi.Scan.DocIndex

/-!
# Scanning a header

The code decides which symbols there are, their types and the order of their parameters.  Doc blocks
add descriptions, and their names and kinds decide where a function goes.  Each declaration claims
the doc block of its symbol, and is then registered with the block that it found, or without one.
-/

namespace HeaderApi

/-- How keys of types are formed. -/
structure ScanOptions where
  /-- What the names of a library begin with; it is left out of the keys. -/
  libPrefix : Option Text := none
deriving DecidableEq

namespace ScanOptions

def typeKey (o : ScanOptions) (name : Text) : Text :=
  ((o.libPrefix.bind fun lead => Text.after? lead name)).getD name

end ScanOptions

namespace ApiModule

/-- Methods of this name register callbacks, and are bound by hand. -/
def reservedMethod : Text := "set_handler".toList

/-- A parameter with what its documentation adds. -/
def documentParam (doc : Docstring) : Parameter → Parameter
  | .variadic => .variadic
  | .named p =>
    match doc.param? p.name with
    | some d => .named { p with modifiers := d.modifiers, doc := d.doc }
    | none => .named p

/-- A report for each documented parameter that a signature does not have. -/
def unknownParams (s : Signature) (doc : Docstring) : List Diagnostic :=
  (doc.params.filter fun d => some d.name ∉ s.params.map Parameter.name?).map fun d =>
    .unknownParameter s.name d.name

/-- Registers a struct type; it needs no documentation. -/
def registerType (o : ScanOptions) (d : Option IndexedDoc) (m : ApiModule) (cname : Text) :
    Scan ApiModule := do
  let name := withoutSuffix cname
  let doc := (d.map (·.doc.fields)).getD {}
  Scan.note (.registered cname (o.typeKey name) m.name)
  pure { m with types := m.types.insert (o.typeKey name) { cname, doc } }

/-- Gives a class one more function.  There is one constructor and one destructor at most, and the
last one counts. -/
def attach (owner : ClassEntry) (f : FunctionEntry) : Scan ClassEntry :=
  match f.kind with
  | .initializer => pure { owner with initializers := owner.initializers ++ [f] }
  | .constructor => do
    Scan.report (owner.constructor.toList.map fun previous =>
      .duplicateConstructor owner.cname previous.cname f.cname)
    pure { owner with constructor := some f }
  | .destructor => do
    Scan.report (owner.destructor.toList.map fun previous =>
      .duplicateDestructor owner.cname previous.cname f.cname)
    pure { owner with destructor := some f }
  | .getter | .setter | .method => pure { owner with methods := owner.methods ++ [f] }

/-- The entry of a function with its documentation. -/
def documentFunction (s : Signature) (d : IndexedDoc) : FunctionEntry where
  name := d.name
  cname := s.name
  kind := .ofDoc d.doc.kind
  returnType := s.returnType
  params := s.params.map (documentParam d.doc)
  doc := d.doc.fields

/-- Puts a documented function where its name says: to the free functions, or to a class. -/
def place (o : ScanOptions) (m : ApiModule) (f : FunctionEntry) : Scan ApiModule :=
  match f.name.owner with
  | none => pure { m with functions := m.functions ++ [f] }
  | some className =>
    match m.types.get? (o.typeKey className) with
    | none => Scan.fail (.unknownClass className f.cname m.types.keys)
    | some owner =>
      if f.name.name = reservedMethod then do
        Scan.note (.reserved f.cname)
        pure m
      else do
        let owner ← attach owner f
        pure { m with types := m.types.insert (o.typeKey className) owner }

def registerFunction (o : ScanOptions) (d : Option IndexedDoc) (m : ApiModule) (s : Signature) :
    Scan ApiModule :=
  match d with
  | none => do
    Scan.report [.undocumentedFunction s.name]
    pure m
  | some d => do
    Scan.report (unknownParams s d.doc)
    place o m (documentFunction s d)

def registerDelegate (d : Option IndexedDoc) (m : ApiModule) (s : Signature) : Scan ApiModule :=
  let name := withoutSuffix s.name
  match d with
  | none => do
    Scan.report [.undocumentedDelegate (m.name ++ ".".toList ++ name)]
    pure m
  | some d => do
    Scan.report (unknownParams s d.doc)
    let entry : DelegateEntry :=
      { name, cname := s.name, returnType := s.returnType,
        params := s.params.map (documentParam d.doc), doc := d.doc.fields }
    pure { m with delegates := m.delegates.insert name entry }

/-- Registers a declaration with the doc block that it claims by its symbol. -/
def claiming {α : Type} (symbol : α → Text)
    (register : Option IndexedDoc → ApiModule → α → Scan ApiModule) (state : ApiModule × Claims)
    (declaration : α) : Scan (ApiModule × Claims) := do
  let (m, claims) := state
  let (d, claims) := claims.claim (symbol declaration)
  let m ← register d m declaration
  pure (m, claims)

/-- Takes what code declares into a module.  Enums claim their doc blocks too, though nothing of a
block goes to an enum. -/
def registerAll (o : ScanOptions) (index : DocIndex) (name : Text) (declared : Declarations) :
    Scan (ApiModule × Claims) := do
  let claims := ({ index } : Claims).claimAll (declared.enums.map (withoutSuffix ·.name))
  let state ← declared.types.foldlM (claiming withoutSuffix (registerType o))
    ({ name, enums := declared.enums }, claims)
  let state ← declared.functions.foldlM (claiming (·.name) (registerFunction o)) state
  declared.delegates.foldlM (claiming (withoutSuffix ·.name) registerDelegate) state

/-- Scans the text of a header into a module. -/
def ofText (o : ScanOptions) (name t : Text) : Scan ApiModule := do
  let index ← DocIndex.ofText t
  let declared ← Scan.ofExcept (Declarations.ofCode (codeOf t))
  let (m, claims) ← registerAll o index name declared
  Scan.report claims.unused
  Scan.note (.scanned name m.types.size m.functions.length m.delegates.size)
  pure m

end ApiModule

end HeaderApi
