import YellowBull.Lib.FileTree
import YellowBull.Lib.TextFile

/-!
# The calls of the file tools

The operations of `pathlib` and `open` that `tools/builtins/file_write.py`,
`tools/builtins/create_file_folder.py` and `tools/builtins/file_read.py` use, on a POSIX system, as
computations that change the file system and may raise (`FileM`). Their answers come from the file
system. What does not is an input (`OS`): the call at any place may raise besides, a `mkdir` after
some of its directories, and a write after some of its bytes.
-/

namespace YellowBull

open Py

/-- A resolved path, by its components from the root on. -/
abbrev Path := List Text

/-- `str(path)`. -/
def Path.str (path : Path) : Text := text "/" ++ (text "/").intercalate path

/-- The files and directories of the machine. -/
abbrev FileSystem := FileTree Text UInt8

/-- The calls in the tools that may raise whatever stands at the path. -/
inductive CallSite where
  | found
  | isDirectory
  | isFile
  | parentFound
  | foundAgain
  | sizeBefore
  | opening
  | closing
  | sizeAfter
  | reading
  deriving DecidableEq

/-- What the calls of the operating system come back with during one run, as far as the file system
does not tell. -/
structure OS where
  /-- `Path(path).resolve()`. -/
  resolve : Text → Except Exn Path
  /-- The exception that a call raises before it does anything. -/
  fault : CallSite → Option Exn
  /-- `mkdir` makes so many of the missing directories, and then raises. -/
  mkdirFault : Option (ℕ × Exn)
  /-- The file takes so many bytes, and writing more of them raises. -/
  room : Option (ℕ × Exn)
  /-- `st_size` of what is no file. -/
  size : Path → ℕ
  /-- `repr` of a text, for the texts of exceptions. -/
  repr : Text → String

/-- A computation on the file system that may raise. What it did before stays done. -/
abbrev FileM := ExceptT Exn (StateM FileSystem)

namespace FileM

variable {α β : Type}

/-- The computation with this run. -/
def mk (run : FileSystem → Except Exn α × FileSystem) : FileM α := ExceptT.mk run

/-- The run from a file system on. -/
def runFrom (x : FileM α) (fs : FileSystem) : Except Exn α × FileSystem := x.run fs

/-- A computation that is given by its runs has these. -/
@[simp]
theorem runFrom_mk (run : FileSystem → Except Exn α × FileSystem) (fs : FileSystem) :
    (mk run).runFrom fs = run fs := rfl

/-- Returning a value leaves the file system as it is. -/
@[simp]
theorem runFrom_pure (a : α) (fs : FileSystem) : (pure a : FileM α).runFrom fs = (.ok a, fs) := rfl

/-- Two computations in turn. The second does not run if the first raises. -/
theorem runFrom_bind (x : FileM α) (f : α → FileM β) (fs : FileSystem) :
    (x >>= f).runFrom fs =
      match x.runFrom fs with
      | (.ok a, fs') => (f a).runFrom fs'
      | (.error e, fs') => (.error e, fs') := by
  change ExceptT.bindCont f (x.runFrom fs).1 (x.runFrom fs).2 = _
  obtain ⟨r, fs'⟩ := x.runFrom fs
  cases r <;> rfl

/-- After a computation that returns, the next one runs on what it leaves. -/
theorem runFrom_bind_of_ok {x : FileM α} {fs fs' : FileSystem} {a : α}
    (h : x.runFrom fs = (.ok a, fs')) (f : α → FileM β) :
    (x >>= f).runFrom fs = (f a).runFrom fs' := by
  rw [runFrom_bind, h]

/-- After a computation that raises, the next one does not run. -/
theorem runFrom_bind_of_error {x : FileM α} {fs fs' : FileSystem} {e : Exn}
    (h : x.runFrom fs = (.error e, fs')) (f : α → FileM β) :
    (x >>= f).runFrom fs = (.error e, fs') := by
  rw [runFrom_bind, h]

/-- A run that does not raise: neither computation did. -/
theorem runFrom_bind_eq_ok {x : FileM α} {f : α → FileM β} {fs fs'' : FileSystem} {b : β} :
    (x >>= f).runFrom fs = (.ok b, fs'') ↔
      ∃ a fs', x.runFrom fs = (.ok a, fs') ∧ (f a).runFrom fs' = (.ok b, fs'') := by
  rcases hx : x.runFrom fs with ⟨r, fs'⟩
  cases r with
  | ok a => simp [runFrom_bind_of_ok hx]
  | error e => simp [runFrom_bind_of_error hx]

/-- The computation changes nothing but that it makes directories, also when it raises. -/
def OnlyMakesDirectories (x : FileM α) : Prop :=
  ∀ fs, ∃ r paths, x.runFrom fs = (r, fs.makeDirectories paths)

/-- A run that changes nothing. -/
theorem exists_makeDirectories (r : Except Exn α) (fs : FileSystem) :
    ∃ r' paths, (r, fs) = (r', fs.makeDirectories paths) :=
  ⟨r, [], by rw [FileTree.makeDirectories_nil]⟩

/-- Returning a value makes nothing. -/
theorem OnlyMakesDirectories.pure (a : α) : (pure a : FileM α).OnlyMakesDirectories :=
  exists_makeDirectories (.ok a)

/-- Two computations that only make directories do so one after the other. -/
theorem OnlyMakesDirectories.bind {x : FileM α} {f : α → FileM β} (hx : x.OnlyMakesDirectories)
    (hf : ∀ a, (f a).OnlyMakesDirectories) : (x >>= f).OnlyMakesDirectories := by
  intro fs
  obtain ⟨r, paths, hrun⟩ := hx fs
  cases r with
  | error e => exact ⟨.error e, paths, runFrom_bind_of_error hrun f⟩
  | ok a =>
    obtain ⟨r', paths', hrun'⟩ := hf a (fs.makeDirectories paths)
    refine ⟨r', paths ++ paths', ?_⟩
    rw [runFrom_bind_of_ok hrun, hrun', FileTree.makeDirectories_append]

/-- A choice of two such computations. -/
theorem OnlyMakesDirectories.ite {c : Prop} [Decidable c] {x y : FileM α}
    (hx : x.OnlyMakesDirectories) (hy : y.OnlyMakesDirectories) :
    (if c then x else y).OnlyMakesDirectories := by
  split_ifs
  · exact hx
  · exact hy

end FileM

namespace OS

variable (os : OS)

/-- An `OSError` about a path. -/
def error (cls : ExnClass) (message : String) (path : Path) : Exn :=
  ⟨cls, message ++ ": " ++ os.repr path.str⟩

/-! ## Questions -/

/-- A call that only asks. -/
def ask {α : Type} (site : CallSite) (answer : FileSystem → Except Exn α) : FileM α :=
  .mk fun fs =>
    match os.fault site with
    | some e => (.error e, fs)
    | none => (answer fs, fs)

/-- `path.exists()`. -/
def pathExists (site : CallSite) (path : Path) : FileM Bool :=
  os.ask site fun fs => .ok (fs.node path).isSome

/-- `path.is_dir()`. -/
def isDir (path : Path) : FileM Bool :=
  os.ask .isDirectory fun fs => .ok (fs.node path = some .directory)

/-- `path.is_file()`. -/
def isFile (path : Path) : FileM Bool :=
  os.ask .isFile fun fs => .ok (fs.file? path).isSome

/-- `path.read_text(encoding="utf-8", errors="replace")`. -/
def readText (path : Path) : FileM Text :=
  os.ask .reading fun fs =>
    match fs.file? path with
    | some content => .ok (universalNewlines (decodeReplace content))
    | none => .error (os.error .other "[Errno 21] Is a directory" path)

/-- `path.stat().st_size`. -/
def stSize (site : CallSite) (path : Path) : FileM ℕ :=
  os.ask site fun fs =>
    match fs.node path with
    | none => .error (os.error .other "[Errno 2] No such file or directory" path)
    | some (.file content) => .ok content.length
    | some _ => .ok (os.size path)

/-! ## Changes -/

/-- `path.mkdir(parents=parents, exist_ok=True)`. -/
def mkdir (parents : Bool) (path : Path) : FileM Unit :=
  .mk fun fs =>
    match fs.node path with
    | some .directory => (.ok (), fs)
    | some _ => (.error (os.error .fileExistsError "[Errno 17] File exists" path), fs)
    | none =>
      if ∃ above ∈ path.inits, fs.node above ∉ [none, some .directory] then
        (.error (os.error .other "[Errno 20] Not a directory" path), fs)
      else if parents = false ∧ fs.missing path ≠ [path] then
        (.error (os.error .other "[Errno 2] No such file or directory" path), fs)
      else
        match os.mkdirFault with
        | none => (.ok (), fs.makeDirectories (fs.missing path))
        | some (n, e) =>
          if n < (fs.missing path).length then
            (.error e, fs.makeDirectories ((fs.missing path).take n))
          else (.ok (), fs.makeDirectories (fs.missing path))

/-- `open(path, mode)`, which appends or not. -/
def openFile (append : Bool) (path : Path) : FileM Unit :=
  .mk fun fs =>
    match os.fault .opening, fs.node path, fs.node path.dropLast with
    | some e, _, _ => (.error e, fs)
    | none, some .directory, _ =>
      (.error (os.error .other "[Errno 21] Is a directory" path), fs)
    | none, some _, _ | none, none, some .directory => (.ok (), fs.openFile append path)
    | none, none, some _ => (.error (os.error .other "[Errno 20] Not a directory" path), fs)
    | none, none, none =>
      (.error (os.error .other "[Errno 2] No such file or directory" path), fs)

/-- The bytes of a write that come into the file, and what writing raises. -/
def written : Except Exn (List UInt8) → List UInt8 × Option Exn
  | .error e => ([], some e)
  | .ok bytes =>
    match os.room with
    | some (n, e) => if n < bytes.length then (bytes.take n, some e) else (bytes, none)
    | none => (bytes, none)

/-- The exception that leaves a `with open(..)` block: that of closing goes before. -/
def blockFault (data : Except Exn (List UInt8)) : Option Exn :=
  (os.fault .closing).or (os.written data).2

/-- `with open(path, mode) as f: f.write(..)`, for what the text to write encodes to. -/
def withOpen (append : Bool) (path : Path) (data : Except Exn (List UInt8)) : FileM Unit := do
  os.openFile append path
  .mk fun fs =>
    ((os.blockFault data).elim (.ok ()) .error, fs.appendTo path (os.written data).1)

/-! ## What the calls do -/

section Calls

variable {os : OS}

/-- A question raises or is answered. -/
theorem runFrom_ask {α : Type} (site : CallSite) (answer : FileSystem → Except Exn α)
    (fs : FileSystem) :
    (os.ask site answer).runFrom fs = ((os.fault site).elim (answer fs) .error, fs) := by
  rw [ask, FileM.runFrom_mk]
  cases os.fault site <;> rfl

/-- It changes nothing. -/
theorem onlyMakesDirectories_ask {α : Type} (site : CallSite)
    (answer : FileSystem → Except Exn α) : (os.ask site answer).OnlyMakesDirectories := by
  intro fs
  rw [runFrom_ask]
  exact FileM.exists_makeDirectories _ fs

/-- The size of what stands at a path, unless the call raises. -/
theorem runFrom_stSize (os : OS) {fs : FileSystem} {path : Path} {n : FileNode UInt8}
    (h : fs.node path = some n) (site : CallSite) :
    ∃ size, (os.stSize site path).runFrom fs = ((os.fault site).elim (.ok size) .error, fs) := by
  have hsize : ∃ size, (match fs.node path with
      | none => .error (os.error .other "[Errno 2] No such file or directory" path)
      | some (.file content) => .ok content.length
      | some _ => .ok (os.size path) : Except Exn ℕ) = .ok size := by
    rw [h]
    cases n <;> exact ⟨_, rfl⟩
  obtain ⟨size, hsize⟩ := hsize
  exact ⟨size, by rw [stSize, runFrom_ask, hsize]⟩

/-- `mkdir` only makes directories. -/
theorem onlyMakesDirectories_mkdir (parents : Bool) (path : Path) :
    (os.mkdir parents path).OnlyMakesDirectories := by
  intro fs
  rw [mkdir, FileM.runFrom_mk]
  split
  · exact FileM.exists_makeDirectories _ fs
  · exact FileM.exists_makeDirectories _ fs
  · split_ifs
    · exact FileM.exists_makeDirectories _ fs
    · exact FileM.exists_makeDirectories _ fs
    · split
      · exact ⟨_, _, rfl⟩
      · split_ifs
        · exact ⟨_, _, rfl⟩
        · exact ⟨_, _, rfl⟩

/-- To open a file raises without a change, or opens what is no directory. -/
theorem openFile_cases (append : Bool) (path : Path) (fs : FileSystem) :
    (∃ e, (os.openFile append path).runFrom fs = (.error e, fs)) ∨
      (os.openFile append path).runFrom fs = (.ok (), fs.openFile append path) ∧
        fs.node path ≠ some .directory := by
  rw [openFile, FileM.runFrom_mk]
  -- A node that is there opens unless it is a directory; a missing one needs a directory above it.
  cases os.fault .opening with
  | some e => exact .inl ⟨e, rfl⟩
  | none =>
    cases fs.node path with
    | some n =>
      cases n with
      | directory => exact .inl ⟨_, rfl⟩
      | file content => exact .inr ⟨rfl, by simp⟩
      | special => exact .inr ⟨rfl, by simp⟩
    | none =>
      cases fs.node path.dropLast with
      | none => exact .inl ⟨_, rfl⟩
      | some n =>
        cases n with
        | directory => exact .inr ⟨rfl, by simp⟩
        | file content => exact .inl ⟨_, rfl⟩
        | special => exact .inl ⟨_, rfl⟩

end Calls

end OS

end YellowBull
