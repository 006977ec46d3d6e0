import HeaderApi.CommandLine.Run
import HeaderApi.Proofs.Declaration.StructType
import HeaderApi.Proofs.OrderedMap

/-!
# Scanning several headers

A batch holds what the scans of its files give, each by itself (`collects_ofFiles`): modules by
their names, failures and reports in the order of the files.  Files meet in one place only: of
several modules of one name the last one is kept, where the first one stood.
-/

namespace HeaderApi

namespace Batch

/-- A path, with what reading it gives. -/
abbrev File := Text × Except FileError Text

variable {o : ScanOptions} {files before after : List File} {file : File} {b : Batch}
  {m : ApiModule} {e : ScanError}

/-- The scan of a file by itself. -/
def scan (o : ScanOptions) (file : File) : Scan ApiModule := scanFile o file.1 file.2

def module? (o : ScanOptions) (file : File) : Option ApiModule := (scan o file).result.toOption

def failure? (o : ScanOptions) (file : File) : Option (Text × ScanError) :=
  match (scan o file).result with
  | .error e => some (file.1, e)
  | .ok _ => none

/-- The modules of the files whose scans succeed. -/
def scanned (o : ScanOptions) (files : List File) : List ApiModule := files.filterMap (module? o)

/-- What is reported about a file behind others: what its own scan reports, and then that its module
takes the place of an earlier one of its name. -/
def reports (o : ScanOptions) (earlier : List File) (file : File) : List (Text × Diagnostic) :=
  let replacing := (module? o file).filter fun m => (scanned o earlier).any (·.name = m.name)
  let collisions := replacing.toList.map fun m => Diagnostic.moduleCollision m.name
  ((scan o file).diagnostics ++ collisions).map (file.1, ·)

/-- The batch holds what the scans of some files give, one by one. -/
structure Collects (o : ScanOptions) (files : List File) (b : Batch) : Prop where
  modules : b.modules = .collect (·.name) (scanned o files)
  failures : b.failures = files.filterMap (failure? o)
  diagnostics : b.diagnostics =
    files.zipIdx.flatMap fun (file, i) => reports o (files.take i) file

theorem collects_empty (o : ScanOptions) : Collects o [] {} := ⟨rfl, rfl, rfl⟩

theorem flatMap_zipIdx_concat {α β : Type} (f : List α → α → List β) (xs : List α) (x : α) :
    ((xs ++ [x]).zipIdx.flatMap fun (y, i) => f ((xs ++ [x]).take i) y) =
      (xs.zipIdx.flatMap fun (y, i) => f (xs.take i) y) ++ f xs x := by
  have hfirst : ∀ p ∈ xs.zipIdx, f ((xs ++ [x]).take p.2) p.1 = f (xs.take p.2) p.1 := by
    intro p hp
    have hlt := List.snd_lt_of_mem_zipIdx hp
    rw [List.take_append_of_le_length (by omega)]
  rw [List.zipIdx_append, List.flatMap_append, List.flatMap_congr hfirst, Nat.zero_add]
  simp

theorem add_of_error (h : (scan o file).result = .error e) (b : Batch) :
    b.add o file = { b with
      diagnostics := b.diagnostics ++ (scan o file).diagnostics.map (file.1, ·)
      notes := b.notes ++ Note.scanning file.1 :: (scan o file).notes
      failures := b.failures ++ [(file.1, e)] } := by
  rw [scan] at h
  simp only [add, scan, h]

theorem add_of_ok (h : (scan o file).result = .ok m) (b : Batch) :
    b.add o file = { b with
      diagnostics := b.diagnostics ++ (scan o file).diagnostics.map (file.1, ·) ++
        (b.modules.get? m.name).toList.map fun _ => (file.1, .moduleCollision m.name)
      notes := b.notes ++ Note.scanning file.1 :: (scan o file).notes
      modules := b.modules.insert m.name m } := by
  rw [scan] at h
  simp only [add, scan, h]

/-- A file whose scan fails leaves the modules as they are. -/
theorem Collects.add_of_error (h : Collects o files b) (hresult : (scan o file).result = .error e) :
    Collects o (files ++ [file]) (b.add o file) := by
  have hmodule : module? o file = none := by rw [module?, hresult, Except.toOption]
  have hfailure : failure? o file = some (file.1, e) := by rw [failure?, hresult]
  rw [Batch.add_of_error hresult]
  refine ⟨?_, ?_, ?_⟩
  · rw [scanned, List.filterMap_append, List.filterMap_cons_none hmodule, List.filterMap_nil,
      List.append_nil]
    exact h.modules
  · rw [List.filterMap_append, List.filterMap_cons_some hfailure, List.filterMap_nil, h.failures]
  · rw [flatMap_zipIdx_concat, ← h.diagnostics, reports, hmodule, Option.filter_none]
    exact congrArg (b.diagnostics ++ ·) (by simp)

/-- A file whose scan succeeds adds its module, and reports it if there was one of its name. -/
theorem Collects.add_of_ok (h : Collects o files b) (hresult : (scan o file).result = .ok m) :
    Collects o (files ++ [file]) (b.add o file) := by
  have hmodule : module? o file = some m := by rw [module?, hresult, Except.toOption]
  have hfailure : failure? o file = none := by rw [failure?, hresult]
  rw [Batch.add_of_ok hresult]
  refine ⟨?_, ?_, ?_⟩
  · rw [scanned, List.filterMap_append, List.filterMap_cons_some hmodule, List.filterMap_nil,
      OrderedMap.collect_concat, ← scanned, ← h.modules]
  · rw [List.filterMap_append, List.filterMap_cons_none hfailure, List.filterMap_nil,
      List.append_nil]
    exact h.failures
  · have hany := OrderedMap.isSome_get?_collect (·.name) (scanned o files) m.name
    rw [← h.modules] at hany
    rw [flatMap_zipIdx_concat, ← h.diagnostics, reports, hmodule, Option.filter_some, ← hany,
      List.append_assoc]
    cases b.modules.get? m.name with
    | none => simp
    | some old => simp

theorem Collects.add (h : Collects o files b) (file : File) :
    Collects o (files ++ [file]) (b.add o file) := by
  cases hresult : (scan o file).result with
  | error e => exact h.add_of_error hresult
  | ok m => exact h.add_of_ok hresult

theorem collects_ofFiles (o : ScanOptions) (files : List File) :
    Collects o files (ofFiles o files) := by
  induction files using List.reverseRecOn with
  | nil => exact collects_empty o
  | append_singleton files file ih =>
    rw [ofFiles, List.foldl_concat]
    exact ih.add file

/-- Files are scanned apart from each other.  The modules stand in the order in which their names
first came, each the last one of its name.  Failures and reports come file by file, as from scanning
the file alone, but for the report that a module takes the place of an earlier one.  A file that
fails does not change the modules, wherever it stands. -/
theorem ofFiles_isolated (o : ScanOptions) (files : List File) :
    (ofFiles o files).modules.keys = ((scanned o files).map (·.name)).eraseDups ∧
    (∀ name, (ofFiles o files).modules.get? name = lastWith? (·.name) name (scanned o files)) ∧
    (ofFiles o files).failures = files.filterMap (failure? o) ∧
    (ofFiles o files).diagnostics =
      (files.zipIdx.flatMap fun (file, i) => reports o (files.take i) file) ∧
    ∀ before file after, files = before ++ after → module? o file = none →
      (ofFiles o (before ++ file :: after)).modules = (ofFiles o files).modules := by
  have h := collects_ofFiles o files
  refine ⟨?_, ?_, h.failures, h.diagnostics, ?_⟩
  · rw [h.modules, OrderedMap.keys_collect]
  · intro name
    rw [h.modules, OrderedMap.get?_collect]
  · rintro before file after rfl hfile
    rw [h.modules, (collects_ofFiles o _).modules, scanned, scanned, List.filterMap_append,
      List.filterMap_append, List.filterMap_cons_none hfile]

/-- A header with a method of a class that it does not declare. -/
def runHeader : Text := "/** @name: ta_nope::run */\n".toList ++ "void ta_nope_run (void);\n".toList

theorem module?_runHeader : module? ⟨none⟩ ("b/log.h".toList, .ok runHeader) = none := by
  have hnames : StructType.names (codeOf runHeader) = [] := by
    rw [StructType.names_of_notMem (by decide +kernel)]
    decide +kernel
  rw [module?, scan, scanFile, ApiModule.ofText, Declarations.ofCode, hnames]
  decide +kernel

/-- Between two headers of one name, one that fails does not count. -/
theorem ofFiles_isolated_runHeader :
    let first : File := ("a/log.h".toList, .ok "typedef struct _first first_t;".toList)
    let broken : File := ("b/log.h".toList, .ok runHeader)
    let second : File := ("c/log.h".toList, .ok "typedef struct _second second_t;".toList)
    module? ⟨none⟩ broken = none ∧
      (ofFiles ⟨none⟩ [first, broken, second]).modules = (ofFiles ⟨none⟩ [first, second]).modules := by
  intro first broken second
  refine ⟨module?_runHeader, ?_⟩
  have h := ofFiles_isolated ⟨none⟩ [first, second]
  exact h.2.2.2.2 [first] broken [second] rfl module?_runHeader

end Batch

namespace CommandLine

variable {μ : Type → Type} [Monad μ] [LawfulMonad μ]

/-- In a file system that does not change, reading all files first makes no difference. -/
theorem scanFiles_eq {fs : FileSystem μ} {content : Text → Except FileError Text}
    {paths : List Text} (h : ∀ path ∈ paths, fs.readFile path = pure (content path))
    (o : ScanOptions) :
    scanFiles fs o paths = pure (Batch.ofFiles o (paths.map fun path => (path, content path))) := by
  have hreads : (paths.mapM fun path => return (path, ← fs.readFile path)) =
      (pure (paths.map fun path => (path, content path)) : μ _) := by
    induction paths with
    | nil => rfl
    | cons path paths ih =>
      rw [List.forall_mem_cons] at h
      rw [List.mapM_cons, h.1, ih h.2]
      simp
  rw [scanFiles, hreads, pure_bind]

end CommandLine

end HeaderApi
