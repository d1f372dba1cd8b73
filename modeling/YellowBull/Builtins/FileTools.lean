import YellowBull.Builtins.FileSystem

/-!
# The tools that write files

`WriteFileTool` and `CreateFileFolderTool` of `tools/builtins`. Their arguments come from JSON, in
which a text may hold lone surrogates.
-/

namespace YellowBull

open Py

/-- An argument of a tool. -/
inductive Arg where
  | text (t : Text)
  /-- What is no text, by the name of its type, its truth value and its `str`. -/
  | other (typeName : String) (truthy : Bool) (str : Text)
  deriving DecidableEq

namespace Arg

/-- `None` -/
def none : Arg := .other "NoneType" false (Py.text "None")

def bool (b : Bool) : Arg := .other "bool" b (Py.text (if b then "True" else "False"))

/-- `bool(arg)`. -/
def truthy : Arg → Bool
  | .text t => t ≠ []
  | .other _ truthy _ => truthy

/-- `str(arg)`. -/
def str : Arg → Text
  | .text t => t
  | .other _ _ str => str

/-- The bytes that `f.write(arg)` writes. -/
def data : Arg → Except Exn (List UInt8)
  | .text t => t.encode
  | .other typeName .. => .error ⟨.typeError, "write() argument must be str, not " ++
      (if typeName = "NoneType" then "None" else typeName)⟩

end Arg

/-- A `ToolResult`, with a content that may hold lone surrogates. -/
structure FileToolResult where
  content : Text
  success : Bool := true
  error : String := ""
  deriving DecidableEq

/-- The path neither starts like an absolute one nor has a drive. -/
def IsRelative (path : Text) : Prop :=
  path.take 1 ∉ [text "/", text "\\"] ∧ ∀ c ∈ path.take 2, [c] ≠ text ":"

instance : DecidablePred IsRelative := fun _ => inferInstanceAs (Decidable (_ ∧ _))

/-- The result for such a path. -/
def relativePath (path : Text) : FileToolResult where
  content := text ("Relative paths are not accepted. Please provide an absolute path " ++
    "(e.g., D:\\project\\file.py). Got: ") ++ path
  success := false
  error := "relative_path_not_allowed"

/-- The path to which the argument resolves, or the result that refuses it. -/
def resolvePath (os : OS) : Arg → Except Exn (FileToolResult ⊕ Path)
  | .other typeName .. =>
    .error ⟨.attributeError, "'" ++ typeName ++ "' object has no attribute 'startswith'"⟩
  | .text path =>
    if IsRelative path then .ok (.inl (relativePath path))
    else (os.resolve path).map .inr

/-- The handlers of a tool: some classes of exceptions with a text before the path, and
`except Exception`. The former raise themselves if the path has not been resolved. -/
def handle (clauses : List (ExnClass × String)) (failed : String) (target : Option Path) (e : Exn) :
    Except Exn FileToolResult :=
  match clauses.lookup e.cls, target with
  | some message, some target => .ok { content := text message ++ target.str, success := false }
  | some _, none => .error
      ⟨.other, "cannot access local variable 'target' where it is not associated with a value"⟩
  | none, _ =>
    if e.IsException then .ok { content := text failed ++ text e.text, success := false }
    else .error e

/-- A `try` block that resolves a path and goes on with it. -/
def tryTarget (os : OS) (clauses : List (ExnClass × String)) (failed : String) (path : Arg)
    (body : Path → FileM FileToolResult) (fs : FileSystem) :
    Except Exn FileToolResult × FileSystem :=
  match resolvePath os path with
  | .error e => (handle clauses failed none e, fs)
  | .ok (.inl result) => (.ok result, fs)
  | .ok (.inr target) =>
    match (body target).runFrom fs with
    | (.ok result, fs') => (.ok result, fs')
    | (.error e, fs') => (handle clauses failed (some target) e, fs')

/-- The `with open(..)` block and the size afterwards. -/
def writeAndStat (os : OS) (append : Bool) (target : Path) (data : Except Exn (List UInt8)) :
    FileM ℕ := do
  os.withOpen append target data
  os.stSize .sizeAfter target

/-- What both tools do with a resolved path: they prepare, which may give the result, and then write
to the file and report its size. -/
def writeTarget {α : Type} (os : OS) (prepare : FileM (FileToolResult ⊕ α)) (append : Bool)
    (target : Path) (data : Except Exn (List UInt8)) (report : α → ℕ → FileToolResult) :
    FileM FileToolResult := do
  match ← prepare with
  | .inl result => return result
  | .inr before => return report before (← writeAndStat os append target data)

/-! ## `WriteFileTool` -/

namespace WriteFileTool

/-- `target.exists() and target.is_dir()`. -/
def existsAsDirectory (os : OS) (target : Path) : FileM Bool := do
  if ← os.pathExists .found target then os.isDir target
  else return false

/-- `target.parent.mkdir(..)`, where the argument asks for it. -/
def makeParent (os : OS) (target : Path) (create_dirs : Arg) : FileM Unit :=
  if create_dirs.truthy then os.mkdir true target.dropLast else pure ()

/-- `before_size`. -/
def sizeBefore (os : OS) (target : Path) : FileM ℕ := do
  if ← os.pathExists .foundAgain target then os.stSize .sizeBefore target
  else return 0

/-- What comes before the file is opened: a result, or the size before. -/
def prepare (os : OS) (target : Path) (create_dirs : Arg) : FileM (FileToolResult ⊕ ℕ) := do
  if ← existsAsDirectory os target then
    return .inl
      { content := text "Path exists and is a directory: " ++ target.str, success := false }
  else
    makeParent os target create_dirs
    return .inr (← sizeBefore os target)

/-- The result of a write. -/
def wrote (target : Path) (content append : Arg) (before_size after_size : ℕ) : FileToolResult where
  content := text "Successfully " ++ text (if append.truthy then "appended to" else "wrote to") ++
    text " " ++ target.str ++
    text ("\nPrevious size: " ++ toString before_size ++ " bytes\nNew size: " ++
      toString after_size ++ " bytes\nWritten: " ++ toString content.str.length ++ " chars")

/-- The body of the `try` block, from the resolved path on. -/
def body (os : OS) (content append create_dirs : Arg) (target : Path) : FileM FileToolResult :=
  writeTarget os (prepare os target create_dirs) append.truthy target content.data
    (wrote target content append)

/-- `WriteFileTool.execute`. -/
def execute (os : OS) (fs : FileSystem) (filepath content : Arg) (append : Arg := .bool false)
    (create_dirs : Arg := .bool true) : Except Exn FileToolResult × FileSystem :=
  tryTarget os [(.permissionError, "Permission denied: ")] "Write failed: " filepath
    (body os content append create_dirs) fs

end WriteFileTool

/-! ## `CreateFileFolderTool` -/

namespace CreateFileFolderTool

/-- `target.parent.mkdir(..)`, where the argument asks for it and the parent does not exist. -/
def makeParent (os : OS) (target : Path) (recursive : Arg) : FileM Unit := do
  if recursive.truthy then
    if ← os.pathExists .parentFound target.dropLast then return ()
    else os.mkdir true target.dropLast
  else return ()

/-- What comes before the file is opened: a result, or nothing. -/
def prepare (os : OS) (target : Path) (kind recursive : Arg) : FileM (FileToolResult ⊕ Unit) := do
  if ← os.pathExists .found target then
    return .inl { content := text "Path already exists: " ++ target.str, success := false }
  else if kind = .text (text "directory") then
    os.mkdir recursive.truthy target
    return .inl { content := text "Directory created: " ++ target.str }
  else if kind = .text (text "file") then
    makeParent os target recursive
    return .inr ()
  else
    return .inl {
      content := text "Invalid kind '" ++ kind.str ++ text "'. Must be 'file' or 'directory'."
      success := false }

/-- The bytes of the file, none without a content. -/
def data (content : Arg) : Except Exn (List UInt8) :=
  if content.truthy then content.data else .ok []

/-- The result for a new file. -/
def created (target : Path) (size : ℕ) : FileToolResult where
  content := text "File created: " ++ target.str ++ text (" (" ++ toString size ++ " bytes)")

/-- The body of the `try` block, from the resolved path on. -/
def body (os : OS) (kind content recursive : Arg) (target : Path) : FileM FileToolResult :=
  writeTarget os (prepare os target kind recursive) false target (data content)
    fun _ size => created target size

/-- `CreateFileFolderTool.execute`. -/
def execute (os : OS) (fs : FileSystem) (path : Arg) (kind : Arg := .text (text "file"))
    (content : Arg := .none) (recursive : Arg := .bool true) :
    Except Exn FileToolResult × FileSystem :=
  tryTarget os [(.permissionError, "Permission denied: "),
    (.fileExistsError, "Path already exists: ")] "Create failed: " path
    (body os kind content recursive) fs

end CreateFileFolderTool

end YellowBull
