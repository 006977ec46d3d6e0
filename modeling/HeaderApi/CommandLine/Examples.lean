import HeaderApi.Docstring.Render
import HeaderApi.Scan.Module

/-!
# Usage examples

Examples that the program can run on itself: each one is a small text and what comes of it.
-/

namespace HeaderApi.CommandLine

structure Example where
  title : Text
  holds : Bool
  notes : List Note := []

namespace Example

def ofScan (title : String) (s : Scan ApiModule)
    (holds : Except ScanError ApiModule → List Diagnostic → Bool) : Example :=
  ⟨title.toList, holds s.result s.diagnostics, s.notes⟩

def docTexts (t : String) : List Text := (docBlocks t.toList).map (·.text)

def named (type name : String) : Parameter :=
  .named { name := name.toList, type := type.toList }

/-- A header with a class, its constructor, a method and a free function. -/
def scenario : Text :=
  ("\n/**\n * @name: ta_iri\n * @type: class\n */\ntypedef struct _ta_iri ta_iri_t;\n" ++
   "\n/**\n * @name: ta_iri::new\n * @type: constructor\n */\nta_iri_t *ta_iri_new (void);\n" ++
   "\n/**\n * @name: ta_iri::to_string\n * @type: method\n * @return: char *\n */\n" ++
   "char *ta_iri_to_string (ta_iri_t *iri);\n" ++
   "\n/**\n * @name: ta_log_info\n */\nvoid ta_log_info (const char *fmt, ...);\n").toList

def docBlockText : Text :=
  ("\n * @name: ta_atom::load\n * @param: path (optional): File path\n" ++
   " * @raise: TA_ATOM_LOAD_ERROR\n *\n * Loads a feed.\n ").toList

def isOk {ε α : Type} (x : Except ε α) (test : α → Bool) : Bool :=
  match x with
  | .ok a => test a
  | .error _ => false

def all : List Example := [
  { title := "find_docstrings: single block".toList
    holds :=
      docTexts "we have a docstring here /** blah blah blah */" = [" blah blah blah ".toList] },
  { title := "find_docstrings: ordinary comment".toList
    holds := docTexts "/* blah blah */ test test test" = [] },
  { title := "strip_spaces".toList
    holds := Text.squeeze "ta_atom_content_t          *".toList = "ta_atom_content_t *".toList },
  { title := "clear_params: typed list".toList
    holds := isOk (Parameter.readList "const char *p1, int p2, ta_iri_t *iri".toList) fun ps =>
      ps = [named "const char *" "p1", named "int" "p2", named "ta_iri_t *" "iri"] },
  { title := "clear_params: void".toList
    holds := isOk (Parameter.readList "void".toList) List.isEmpty &&
      isOk (Parameter.readList " void ".toList) List.isEmpty },
  { title := "tag_name: qualified".toList
    holds := QualifiedName.read " ta_log::info".toList = ⟨"info".toList, some "ta_log".toList⟩ },
  { title := "tag_param: modifiers and doc".toList
    holds := ParamDoc.read " type (optional): Content mime type".toList =
      ⟨"type".toList, ["optional".toList], "Content mime type".toList⟩ },
  { title := "tag_return: container and plain".toList
    holds := ReturnDoc.read " ta_list (ta_atom_link)".toList =
        ⟨"ta_list".toList, some "ta_atom_link".toList⟩ &&
      ReturnDoc.read " bool".toList = ⟨"bool".toList, none⟩ },
  { title := "parse_docstring: reparse is stable".toList
    holds :=
      let doc := (Docstring.parse 0 docBlockText).1
      (Docstring.parse 0 doc.render).1 = doc },
  { title := "find_enums: bit flags".toList
    holds :=
      Enum.all (Text.squeeze "enum \x7b\n  F1 = 1 << 1,\n  F2 = 1 << 2\n\x7d myflags;".toList) =
        [⟨"myflags".toList, true, ["F1".toList, "F2".toList]⟩] },
  { title := "find_functions: prototype".toList
    holds := isOk (Signature.prototypes
        "int my_func (const char *param1, int param2, void *param3);".toList) fun
      | s :: _ => s.name = "my_func".toList && s.returnType = "int".toList && s.params.length = 3
      | [] => false },
  { title := "find_delegates: function pointer".toList
    holds :=
      let code := "typedef int *(*ta_list_cmp_func_t) (void *a, void *b);".toList
      isOk (Signature.delegates code) (fun
        | s :: _ => s.name = "ta_list_cmp_func_t".toList && s.params.length = 2
        | [] => false) &&
      isOk (Signature.prototypes code) List.isEmpty },
  ofScan "scan: class, constructor and free function"
    (ApiModule.ofText ⟨some "ta_".toList⟩ "iri".toList scenario) fun result _ =>
      isOk result fun m =>
        match m.types.get? "iri".toList with
        | some iri =>
          iri.constructor.map (·.cname) = some "ta_iri_new".toList &&
            iri.methods.map (·.cname) = ["ta_iri_to_string".toList] &&
            m.functions.map (·.cname) = ["ta_log_info".toList]
        | none => false,
  ofScan "scan: unknown owner is fatal"
    (ApiModule.ofText {} "ghost".toList
      "/** @name: ta_ghost::boo */\nvoid ta_ghost_boo (int a);".toList) fun result _ =>
      match result with
      | .error (.unknownClass ..) => true
      | _ => false,
  ofScan "scan: undocumented function is dropped"
    (ApiModule.ofText {} "x".toList "int ta_hidden (int a);".toList) fun result diagnostics =>
      isOk result (·.functions.isEmpty) &&
        diagnostics = [.undocumentedFunction "ta_hidden".toList]]

def line (e : Example) : Text :=
  (if e.holds then "ok      " else "FAILED  ").toList ++ e.title ++ "\n".toList

/-- A line for each example, and how many hold and fail. -/
def summary (examples : List Example) : Text :=
  let held := (examples.filter Example.holds).length
  examples.flatMap line ++ "\n".toList ++ Text.decimal held ++ " passed, ".toList ++
    Text.decimal (examples.length - held) ++ " failed\n".toList

end Example

end HeaderApi.CommandLine
