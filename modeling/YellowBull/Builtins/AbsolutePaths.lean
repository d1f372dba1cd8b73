import YellowBull.Builtins.FailedWrites

/-!
# The path check of the file tools

`WriteFileTool` and `CreateFileFolderTool` refuse relative paths by the first two characters of the
path: a leading slash or backslash, or a colon among the first two characters, passes on every host.
Each host has rules of its own for what is absolute (`Host.Absolute`), and the check takes some
paths for absolute that are not (`Host.Misread`): on POSIX everything that only looks like a Windows
path, on Windows the paths that have a root without a drive, or a drive without a root.

A run gets past the check just if the path does not look relative (`getsPast_tryTarget_iff`), and
where an accepted path is absolute the working directory plays no part in what the run does.
-/

namespace YellowBull

open Py

/-! ## Absolute paths -/

/-- The system on which the tools run. -/
inductive Host where
  | posix
  | windows
  deriving DecidableEq

def slash : CodePoint := chr 47

def backslash : CodePoint := chr 92

def colon : CodePoint := chr 58

/-- The separators differ. -/
theorem slash_ne_backslash : slash ≠ backslash := by decide

/-- A separator is not the colon of a drive. -/
theorem slash_ne_colon : slash ≠ colon := by decide

/-- A separator of Windows paths. -/
def IsSep (c : CodePoint) : Prop := c = slash ∨ c = backslash

instance : DecidablePred IsSep := fun _ => inferInstanceAs (Decidable (_ ∨ _))

/-- The text begins with a separator. -/
def BeginsWithSep (t : Text) : Prop := ∃ c ∈ t.head?, IsSep c

/-- What stands behind two separators begins with the names of a server and of a share, with a
separator in between. -/
def BeginsWithShare (t : Text) : Prop :=
  let server := t.takeWhile (¬ IsSep ·)
  let share := (t.dropWhile (¬ IsSep ·)).drop 1
  server ≠ [] ∧ ∃ c ∈ share.head?, ¬ IsSep c

instance : DecidablePred BeginsWithSep := fun t =>
  inferInstanceAs (Decidable (∃ c ∈ t.head?, _))

instance : DecidablePred BeginsWithShare := fun _ =>
  inferInstanceAs (Decidable (_ ∧ ∃ c ∈ List.head? _, _))

namespace Host

/-- The path is absolute. On Windows it begins with a drive and a separator, or with a share, behind
which the separator may be left out at the end. -/
def Absolute : Host → Text → Prop
  | posix, path => path.head? = some slash
  | windows, c :: d :: path =>
    if IsSep c then IsSep d ∧ BeginsWithShare path else d = colon ∧ BeginsWithSep path
  | windows, _ => False

/-- The path passes the check, though it is not absolute. -/
def Misread : Host → Text → Prop
  -- A backslash, or a colon behind anything but a slash.
  | posix, c :: path => c = backslash ∨ c = colon ∨ c ≠ slash ∧ path.head? = some colon
  | windows, [c] => IsSep c ∨ c = colon
  | windows, c :: d :: path =>
    if IsSep c then
      -- A root without a drive, or two separators without a share.
      ¬ IsSep d ∨ ¬ BeginsWithShare path
    else if d = colon then
      -- A drive without a root.
      ¬ BeginsWithSep path
    else c = colon
  | _, [] => False

/-- The check of the tools, by the first two characters. -/
theorem isRelative_cons (c : CodePoint) (path : Text) :
    IsRelative (c :: path) ↔ c ≠ slash ∧ c ≠ backslash ∧ c ≠ colon ∧ path.head? ≠ some colon := by
  have hslash : text "/" = [slash] := by decide
  have hback : text "\\" = [backslash] := by decide
  have hcolon : text ":" = [colon] := by decide
  unfold IsRelative
  rw [hslash, hback, hcolon]
  cases path <;> simp [and_assoc]

/-- The check passes just the absolute paths and those that it misreads. -/
theorem not_isRelative_imp_absolute_iff (host : Host) (path : Text) :
    (¬ IsRelative path → host.Absolute path) ↔ ¬ host.Misread path := by
  cases path with
  | nil =>
    have hrelative : IsRelative [] := ⟨by decide, by simp⟩
    cases host <;> simp [hrelative, Misread]
  | cons c path =>
    rw [isRelative_cons]
    cases host with
    -- On POSIX the tool asks for less than the host: a backslash or a colon will do.
    | posix =>
      by_cases hc : c = slash
      · simp [Absolute, Misread, hc, slash_ne_backslash, slash_ne_colon]
      · simp [Absolute, Misread, hc]
    -- On Windows one separator alone, or a letter and a colon alone, leave the drive or the
    -- directory open.
    | windows =>
      have hsep : c ≠ slash ∧ c ≠ backslash ↔ ¬ IsSep c := not_or.symm
      rw [← and_assoc, hsep]
      cases path with
      | nil => by_cases hc : IsSep c <;> simp [Absolute, Misread, hc]
      | cons d path =>
        by_cases hc : IsSep c
        · by_cases hd : IsSep d <;> simp [Absolute, Misread, hc, hd]
        · by_cases hd : d = colon <;> simp [Absolute, Misread, hc, hd]

end Host

/-! ## Runs that are refused -/

/-- Every result of the computation meets the condition. -/
def FileM.Returns {α : Type} (x : FileM α) (p : α → Prop) : Prop :=
  ∀ fs a fs', x.runFrom fs = (.ok a, fs') → p a

namespace FileM.Returns

variable {α β : Type} {p : β → Prop}

/-- A computation that only returns a result returns one with the property if it has it. -/
theorem pure {b : β} (h : p b) : (Pure.pure b : FileM β).Returns p := by
  intro fs b' fs' hrun
  rw [FileM.runFrom_pure] at hrun
  exact Except.ok.inj (Prod.mk.inj hrun).1 ▸ h

/-- The results of a sequence are those of its second part. -/
theorem bind {q : α → Prop} {x : FileM α} {f : α → FileM β} (hx : x.Returns q)
    (hf : ∀ a, q a → (f a).Returns p) : (x >>= f).Returns p := by
  intro fs b fs'' hrun
  obtain ⟨a, fs', hfirst, hsecond⟩ := FileM.runFrom_bind_eq_ok.mp hrun
  exact hf a (hx fs a fs' hfirst) fs' b fs'' hsecond

/-- A property of all results is one of those that are returned. -/
theorem of_forall (x : FileM β) (h : ∀ b, p b) : x.Returns p := fun _ b _ _ => h b

/-- A branch returns results with the property if both sides do. -/
theorem ite {c : Prop} [Decidable c] {x y : FileM β} (hx : x.Returns p) (hy : y.Returns p) :
    (if c then x else y).Returns p := by
  split_ifs
  · exact hx
  · exact hy

end FileM.Returns

/-- The result is not the one that refuses a relative path. -/
def FileToolResult.Passed (result : FileToolResult) : Prop :=
  result.error ≠ "relative_path_not_allowed"

/-- The run gets past the path check: it does not return the result that refuses the path. -/
def GetsPast (run : Except Exn FileToolResult × FileSystem) : Prop :=
  ∀ result, run.1 = .ok result → result.Passed

/-- A result without an error. -/
theorem FileToolResult.passed_of_error {result : FileToolResult} (h : result.error = "") :
    result.Passed := by
  rw [Passed, h]
  decide

/-- The handlers return a result that has passed the check. -/
theorem passed_of_handle {clauses : List (ExnClass × String)} {failed : String}
    {target : Option Path} {e : Exn} {result : FileToolResult}
    (h : handle clauses failed target e = .ok result) : result.Passed := by
  unfold handle at h
  split at h
  · cases h
    exact FileToolResult.passed_of_error rfl
  · cases h
  · split at h
    · cases h
      exact FileToolResult.passed_of_error rfl
    · cases h

/-- A `try` block gets past the check just if the path does not look relative, if no result of its
body refuses it. -/
theorem getsPast_tryTarget_iff {os : OS} {clauses : List (ExnClass × String)} {failed : String}
    {path : Text} {body : Path → FileM FileToolResult} {fs : FileSystem}
    (hbody : ∀ target, (body target).Returns FileToolResult.Passed) :
    GetsPast (tryTarget os clauses failed (.text path) body fs) ↔ ¬ IsRelative path := by
  unfold GetsPast tryTarget
  by_cases hrelative : IsRelative path
  -- A relative path is answered before the file system is asked.
  · have hpath : resolvePath os (.text path) = .ok (.inl (relativePath path)) := if_pos hrelative
    simp [hpath, hrelative, relativePath, FileToolResult.Passed]
  · have hpath : resolvePath os (.text path) = (os.resolve path).map .inr := if_neg hrelative
    -- Otherwise the result comes from the body or from a handler, and both have passed the test.
    refine iff_of_true (fun result h => ?_) hrelative
    rw [hpath] at h
    cases hresolve : os.resolve path with
    | error e =>
      rw [hresolve] at h
      exact passed_of_handle h
    | ok target =>
      rw [hresolve] at h
      simp only [Except.map] at h
      rcases hrun : (body target).runFrom fs with ⟨r, fs'⟩
      rw [hrun] at h
      cases r with
      | ok result' =>
        obtain rfl := Except.ok.inj h
        exact hbody target fs _ fs' hrun
      | error e => exact passed_of_handle h

/-- What both tools do with a resolved path refuses no path. -/
theorem returns_writeTarget {α : Type} {os : OS} {prepare : FileM (FileToolResult ⊕ α)}
    {append : Bool} {target : Path} {data : Except Exn (List UInt8)}
    {report : α → ℕ → FileToolResult}
    (hprepare : prepare.Returns fun place => ∀ result ∈ place.getLeft?, result.Passed)
    (hreport : ∀ before size, (report before size).Passed) :
    (writeTarget os prepare append target data report).Returns FileToolResult.Passed := by
  refine hprepare.bind fun place hplace => ?_
  cases place with
  | inl result => exact .pure (hplace result rfl)
  | inr before =>
    exact (FileM.Returns.of_forall _ fun _ => trivial).bind fun size _ =>
      .pure (hreport before size)

/-- Behind the check, `write_file` returns only results that have passed it. -/
theorem WriteFileTool.returns_body (os : OS) (content append create_dirs : Arg) (target : Path) :
    (WriteFileTool.body os content append create_dirs target).Returns FileToolResult.Passed := by
  refine returns_writeTarget ?_ fun _ _ => FileToolResult.passed_of_error rfl
  have hany {α : Type} (x : FileM α) : x.Returns fun _ => True := .of_forall x fun _ => trivial
  refine (hany _).bind fun isDirectory _ => ?_
  refine .ite (.pure ?_) ((hany _).bind fun _ _ => (hany _).bind fun size _ => .pure ?_)
  · rintro result ⟨⟩
    exact FileToolResult.passed_of_error rfl
  · rintro result ⟨⟩

/-- Behind the check, `create_file_folder` returns only results that have passed it. -/
theorem CreateFileFolderTool.returns_body (os : OS) (kind content recursive : Arg)
    (target : Path) :
    (CreateFileFolderTool.body os kind content recursive target).Returns FileToolResult.Passed := by
  refine returns_writeTarget ?_ fun _ _ => FileToolResult.passed_of_error rfl
  have hany {α : Type} (x : FileM α) : x.Returns fun _ => True := .of_forall x fun _ => trivial
  refine (hany _).bind fun found _ => .ite (.pure ?_) (.ite ?_ (.ite ?_ (.pure ?_)))
  · rintro result ⟨⟩
    exact FileToolResult.passed_of_error rfl
  · refine (hany _).bind fun _ _ => .pure ?_
    rintro result ⟨⟩
    exact FileToolResult.passed_of_error rfl
  · refine (hany _).bind fun _ _ => .pure ?_
    rintro result ⟨⟩
  · rintro result ⟨⟩
    exact FileToolResult.passed_of_error rfl

/-! ## The working directory -/

/-- The system when `resolve` resolves the paths from a working directory on. -/
def OS.inDirectory (os : OS) (resolve : Text → Text → Except Exn Path) (cwd : Text) : OS :=
  { os with resolve := resolve cwd }

/-- A run that gets past the path check, in any working directory, has an absolute path, and goes
the same way in every other working directory. -/
def NeverRelative (host : Host) (path : Text)
    (run : Text → Except Exn FileToolResult × FileSystem) : Prop :=
  ∀ cwd, GetsPast (run cwd) → host.Absolute path ∧ ∀ cwd', run cwd' = run cwd

section WorkingDirectory

variable {host : Host} {resolve : Text → Text → Except Exn Path}
variable (hresolve : ∀ path, host.Absolute path → ∀ cwd cwd', resolve cwd path = resolve cwd' path)
include hresolve

/-- A `try` block accepts no relative path, just if the check does not misread the path. -/
theorem neverRelative_tryTarget_iff {os : OS} {clauses : List (ExnClass × String)}
    {failed : String} {path : Text} {body : Path → FileM FileToolResult} {fs : FileSystem}
    (hbody : ∀ target, (body target).Returns FileToolResult.Passed) :
    NeverRelative host path (fun cwd =>
      tryTarget (os.inDirectory resolve cwd) clauses failed (.text path) body fs) ↔
        ¬ host.Misread path := by
  rw [← Host.not_isRelative_imp_absolute_iff]
  unfold NeverRelative
  simp only [getsPast_tryTarget_iff hbody]
  -- The directory itself tells nothing about the host's reading of the path, so any will do.
  constructor
  · exact fun h hpath => (h [] hpath).1
  · intro h cwd hpath
    have habsolute := h hpath
    -- An absolute path is resolved without the directory.
    refine ⟨habsolute, fun cwd' => ?_⟩
    have hsame : resolvePath (os.inDirectory resolve cwd') (.text path) =
        resolvePath (os.inDirectory resolve cwd) (.text path) := by
      unfold resolvePath OS.inDirectory
      simp only [hresolve path habsolute cwd' cwd]
    unfold tryTarget
    rw [hsame]

/-- On a host where the working directory plays no part in resolving an absolute path, neither tool
accepts a relative path, just if the check does not misread the path. -/
theorem never_relative_iff (os : OS) (fs : FileSystem) (path : Text) :
    (∀ content append create_dirs : Arg,
      NeverRelative host path (fun cwd => WriteFileTool.execute (os.inDirectory resolve cwd) fs
        (.text path) content append create_dirs) ↔ ¬ host.Misread path) ∧
    ∀ kind content recursive : Arg,
      NeverRelative host path (fun cwd => CreateFileFolderTool.execute
        (os.inDirectory resolve cwd) fs (.text path) kind content recursive) ↔
          ¬ host.Misread path :=
  ⟨fun content append create_dirs => neverRelative_tryTarget_iff hresolve
      (WriteFileTool.returns_body os content append create_dirs),
    fun kind content recursive => neverRelative_tryTarget_iff hresolve
      (CreateFileFolderTool.returns_body os kind content recursive)⟩

end WorkingDirectory

/-- `Path(path).resolve()` on a POSIX system without links and dots: the path below the working
directory, unless it begins with a slash. -/
def resolvePosix (cwd path : Text) : Except Exn Path :=
  if path.head? = some slash then .ok [path.drop 1] else .ok [cwd, path]

/-- An absolute path is resolved without the working directory of the process. -/
theorem resolvePosix_of_absolute (path : Text) (h : Host.posix.Absolute path) (cwd cwd' : Text) :
    resolvePosix cwd path = resolvePosix cwd' path := by
  have hhead : path.head? = some slash := h
  rw [resolvePosix, resolvePosix, if_pos hhead, if_pos hhead]

/-- A path that begins with a slash. -/
theorem never_relative_iff_slash :
    NeverRelative .posix (text "/notes") fun cwd =>
      WriteFileTool.execute (calmOS.inDirectory resolvePosix cwd) oneFile (.text (text "/notes"))
        (.text (text "hi")) (.bool false) (.bool true) := by
  refine ((never_relative_iff resolvePosix_of_absolute calmOS oneFile (text "/notes")).1 _ _ _).mpr
    ?_
  have htext : text "/notes" = slash :: text "notes" := by decide
  simp [htext, Host.Misread, slash_ne_backslash, slash_ne_colon]

/-- A Windows path on a POSIX system gets past the check, and is no absolute path there. -/
theorem windows_path_accepted :
    ¬ ∀ (host : Host) (resolve : Text → Text → Except Exn Path),
      (∀ path, host.Absolute path → ∀ cwd cwd', resolve cwd path = resolve cwd' path) →
        ∀ (os : OS) (fs : FileSystem) (path : Text) (content append create_dirs : Arg),
          NeverRelative host path fun cwd => WriteFileTool.execute
            (os.inDirectory resolve cwd) fs (.text path) content append create_dirs := by
  intro h
  have hnever := h .posix resolvePosix resolvePosix_of_absolute calmOS oneFile (text "D:\\notes")
    (.text (text "hi")) (.bool false) (.bool true)
  have hpast : GetsPast (WriteFileTool.execute (calmOS.inDirectory resolvePosix (text "home"))
      oneFile (.text (text "D:\\notes")) (.text (text "hi")) (.bool false) (.bool true)) := by
    refine (getsPast_tryTarget_iff (WriteFileTool.returns_body _ _ _ _)).mpr fun hrelative => ?_
    have hcolon := hrelative.2 colon (by decide)
    exact hcolon (by decide)
  have habsolute : (text "D:\\notes").head? = some slash := (hnever (text "home") hpast).1
  revert habsolute
  decide

end YellowBull
