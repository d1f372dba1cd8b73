import YellowBull.Builtins.FileTools

/-!
# What a failed write leaves

Up to the `open`, the two tools only make directories, so that a failure changes no file there.
Behind it the file has already been created or emptied, and every later failure (of the encoding, of
a write, of closing, of the last `stat`) is reported as if nothing had been done. A failed run
leaves the files as they were just if it does not come so far, or happens to leave the old content
(`failed_write_changes_nothing_iff`).
-/

namespace YellowBull

open Py

/-! ## Failed runs -/

/-- A `try` block comes to a failure: a result that says so, or an exception that the handlers
catch. -/
def Failed : Except Exn FileToolResult → Prop
  | .ok result => result.success = false
  | .error e => e.IsException

/-- A run that returns a failure leaves the files as they were. -/
def ChangesNothing (fs : FileSystem) (run : Except Exn FileToolResult × FileSystem) : Prop :=
  ∀ result, run.1 = .ok result → result.success = false → fs.SameFiles run.2

/-- The exception by which an opened file is not written as it should. -/
def OS.failure (os : OS) (data : Except Exn (List UInt8)) : Option Exn :=
  (os.blockFault data).or (os.fault .sizeAfter)

/-- Behind the `open`, the run fails. -/
def OS.FailsOpened (os : OS) (data : Except Exn (List UInt8)) : Prop :=
  ∃ e, os.failure data = some e ∧ e.IsException

/-- With a resolved path, the handlers return a failure for what they catch and no other. -/
theorem handle_some {clauses : List (ExnClass × String)}
    (hclauses : clauses.lookup .cancelledError = none) (failed : String) (target : Path) (e : Exn) :
    (e.IsException ∧ ∃ result, handle clauses failed (some target) e = .ok result ∧
        result.success = false) ∨
      ¬ e.IsException ∧ handle clauses failed (some target) e = .error e := by
  unfold handle
  by_cases he : e.IsException
  · refine .inl ⟨he, ?_⟩
    cases clauses.lookup e.cls with
    | none => exact ⟨_, if_pos he, rfl⟩
    | some message => exact ⟨_, rfl, rfl⟩
  · refine .inr ⟨he, ?_⟩
    rw [not_not.mp he, hclauses]
    exact if_neg he

/-- What a `try` block changes is what its body changes with a resolved path. -/
theorem changesNothing_tryTarget_iff {os : OS} {clauses : List (ExnClass × String)}
    (hclauses : clauses.lookup .cancelledError = none) {failed : String} {path : Arg}
    {body : Path → FileM FileToolResult} {fs : FileSystem} :
    ChangesNothing fs (tryTarget os clauses failed path body fs) ↔
      ∀ target, resolvePath os path = .ok (.inr target) → Failed ((body target).runFrom fs).1 →
        fs.SameFiles ((body target).runFrom fs).2 := by
  unfold tryTarget ChangesNothing
  -- Before the body runs the files are not touched, so that the claim is about the body.
  cases hpath : resolvePath os path with
  | error e => simp [FileTree.SameFiles.refl]
  | ok place =>
    cases place with
    | inl result => simp [FileTree.SameFiles.refl]
    | inr target =>
      simp only [Except.ok.injEq, Sum.inr.injEq, forall_eq']
      obtain ⟨r, fs'⟩ := (body target).runFrom fs
      -- Its exception becomes a result that says no success, unless no handler catches it.
      cases r with
      | ok result => simp [Failed]
      | error e =>
        rcases handle_some hclauses failed target e with
          ⟨he, result, hhandle, hfailure⟩ | ⟨he, hhandle⟩
        · simp [hhandle, hfailure, Failed, he]
        · simp [hhandle, Failed, he]

/-! ## Writing -/

/-- The block raises at the `open` without a change, or it opens what is no directory and leaves
what could be written, whether it fails or not. -/
theorem writeAndStat_cases (os : OS) (append : Bool) (target : Path)
    (data : Except Exn (List UInt8)) (fs : FileSystem) :
    (∃ e, (os.openFile append target).runFrom fs = (.error e, fs) ∧
      (writeAndStat os append target data).runFrom fs = (.error e, fs)) ∨
    ((os.openFile append target).runFrom fs).1 = .ok () ∧ fs.node target ≠ some .directory ∧
      ∃ n, (writeAndStat os append target data).runFrom fs =
        ((os.failure data).elim (.ok n) .error,
          (fs.openFile append target).appendTo target (os.written data).1) := by
  unfold writeAndStat
  -- A file that cannot be opened is left alone.
  rcases os.openFile_cases append target fs with ⟨e, hopen⟩ | ⟨hopen, hnode⟩
  · refine .inl ⟨e, hopen, ?_⟩
    exact FileM.runFrom_bind_of_error (FileM.runFrom_bind_of_error hopen _) _
  · refine .inr ⟨by rw [hopen], hnode, ?_⟩
    -- Once it is open, what was written of the data stays, whether or not the block or the stat
    -- fails.
    have hblock : (os.withOpen append target data).runFrom fs =
        ((os.blockFault data).elim (.ok ()) .error,
          (fs.openFile append target).appendTo target (os.written data).1) :=
      FileM.runFrom_bind_of_ok hopen _
    unfold OS.failure
    cases hfault : os.blockFault data with
    | some e =>
      rw [hfault] at hblock
      exact ⟨0, FileM.runFrom_bind_of_error hblock _⟩
    | none =>
      rw [hfault] at hblock
      rw [FileM.runFrom_bind_of_ok hblock]
      obtain ⟨n, hn⟩ := fs.exists_node_openFile append target (os.written data).1
      exact os.runFrom_stSize hn .sizeAfter

/-- When something is prepared by directories alone, a failure changes a file just if it comes
behind the `open`, and what is written then is not what was there. -/
theorem failed_writeTarget_iff {α : Type} {os : OS} {prepare : FileM (FileToolResult ⊕ α)}
    (hprepare : prepare.OnlyMakesDirectories) {append : Bool} {target : Path}
    {data : Except Exn (List UInt8)} {report : α → ℕ → FileToolResult}
    (hreport : ∀ before size, (report before size).success = true) {fs : FileSystem} :
    (Failed ((writeTarget os prepare append target data report).runFrom fs).1 →
        fs.SameFiles ((writeTarget os prepare append target data report).runFrom fs).2) ↔
      ∀ before fs', prepare.runFrom fs = (.ok (.inr before), fs') →
        ((os.openFile append target).runFrom fs').1 = .ok () → os.FailsOpened data →
          ¬ FileTree.Overwrites append (os.written data).1 (fs.node target) := by
  obtain ⟨r, paths, hrun⟩ := hprepare fs
  have hkept := fs.sameFiles_makeDirectories paths
  unfold writeTarget
  cases r with
  | error e =>
    rw [FileM.runFrom_bind_of_error hrun, hrun]
    simp [hkept]
  | ok place =>
    rw [FileM.runFrom_bind_of_ok hrun, hrun]
    cases place with
    | inl result => simp [hkept]
    | inr before =>
      simp only [Prod.mk.injEq, Except.ok.injEq, Sum.inr.injEq, and_imp, forall_eq',
        forall_apply_eq_imp_iff]
      rcases writeAndStat_cases os append target data (fs.makeDirectories paths) with
        ⟨e, hopen, hwrite⟩ | ⟨hopen, hnode, n, hwrite⟩
      · rw [FileM.runFrom_bind_of_error hwrite]
        simp [hopen, hkept]
      · -- The directories that were made change nothing about the target.
        have hsame : fs.SameFiles (((fs.makeDirectories paths).openFile append target).appendTo
            target (os.written data).1) ↔
              ¬ FileTree.Overwrites append (os.written data).1 (fs.node target) := by
          rw [← FileTree.node_makeDirectories hnode, ← FileTree.sameFiles_write_iff]
          exact ⟨hkept.symm.trans, hkept.trans⟩
        cases hfailure : os.failure data with
        | none =>
          rw [hfailure] at hwrite
          rw [FileM.runFrom_bind_of_ok hwrite]
          simp [Failed, OS.FailsOpened, hreport, hfailure]
        | some e =>
          rw [hfailure] at hwrite
          rw [FileM.runFrom_bind_of_error hwrite, hsame]
          simp [Failed, OS.FailsOpened, hopen, hfailure]

/-! ## `WriteFileTool` -/

namespace WriteFileTool

variable {os : OS} {target : Path} {fs fs' : FileSystem}

/-- No directory stands at the target, as far as the calls tell. -/
theorem existsAsDirectory_eq_false_iff :
    (existsAsDirectory os target).runFrom fs = (.ok false, fs') ↔
      os.fault .found = none ∧ fs.node target ≠ some .directory ∧
        (fs.node target ≠ none → os.fault .isDirectory = none) ∧ fs = fs' := by
  unfold existsAsDirectory OS.pathExists OS.isDir
  rw [FileM.runFrom_bind, OS.runFrom_ask]
  cases os.fault .found with
  | some e => simp
  | none =>
    cases hnode : fs.node target with
    | none => simp
    | some n =>
      cases hfault : os.fault .isDirectory with
      | some e => simp [OS.runFrom_ask, hfault]
      | none => simp [OS.runFrom_ask, hfault, hnode]

/-- The size before is known just if the calls for it do not raise. -/
theorem sizeBefore_eq_ok_iff :
    (∃ size, (sizeBefore os target).runFrom fs = (.ok size, fs')) ↔
      os.fault .foundAgain = none ∧ (fs.node target ≠ none → os.fault .sizeBefore = none) ∧
        fs = fs' := by
  unfold sizeBefore OS.pathExists
  rw [FileM.runFrom_bind, OS.runFrom_ask]
  cases os.fault .foundAgain with
  | some e => simp
  | none =>
    cases hnode : fs.node target with
    | none => simp
    | some n =>
      obtain ⟨size, hsize⟩ := os.runFrom_stSize hnode .sizeBefore
      cases hfault : os.fault .sizeBefore <;> simp [hsize, hfault]

/-- The run comes to the `open`, which succeeds. -/
structure Opens (os : OS) (fs : FileSystem) (append create_dirs : Arg) (target : Path) : Prop where
  /-- The target is no directory, as far as the calls tell. -/
  found : os.fault .found = none
  no_directory : fs.node target ≠ some .directory
  looked : fs.node target ≠ none → os.fault .isDirectory = none
  /-- Its parent is made, if that is asked for. -/
  parent : ((makeParent os target create_dirs).runFrom fs).1 = .ok ()
  /-- The size before is known. -/
  foundAgain : os.fault .foundAgain = none
  sized : ((makeParent os target create_dirs).runFrom fs).2.node target ≠ none →
    os.fault .sizeBefore = none
  opened : ((os.openFile append.truthy target).runFrom
    ((makeParent os target create_dirs).runFrom fs).2).1 = .ok ()

/-- These are the runs in which something is prepared and then opened. -/
theorem opens_iff {append create_dirs : Arg} :
    Opens os fs append create_dirs target ↔
      ∃ before fs', (prepare os target create_dirs).runFrom fs = (.ok (.inr before), fs') ∧
        ((os.openFile append.truthy target).runFrom fs').1 = .ok () := by
  unfold prepare
  constructor
  -- Each step of the preparation meets the condition that is named for it.
  · intro h
    obtain ⟨size, hsize⟩ := sizeBefore_eq_ok_iff.mpr ⟨h.foundAgain, h.sized, rfl⟩
    refine ⟨size, _, ?_, h.opened⟩
    rw [FileM.runFrom_bind_of_ok
        (existsAsDirectory_eq_false_iff.mpr ⟨h.found, h.no_directory, h.looked, rfl⟩),
      if_neg Bool.false_ne_true, FileM.runFrom_bind_of_ok (Prod.ext h.parent rfl),
      FileM.runFrom_bind_of_ok hsize]
    rfl
  -- Conversely the run is taken apart step by step.
  · rintro ⟨before, fs'', hrun, hopen⟩
    obtain ⟨isDirectory, fs', hexists, hrun⟩ := FileM.runFrom_bind_eq_ok.mp hrun
    cases isDirectory with
    | true => cases hrun
    | false =>
      obtain ⟨hfound, hno, hlooked, rfl⟩ := existsAsDirectory_eq_false_iff.mp hexists
      obtain ⟨⟨⟩, fs', hparent, hrun⟩ := FileM.runFrom_bind_eq_ok.mp hrun
      obtain ⟨size, fs''', hsize, hrun⟩ := FileM.runFrom_bind_eq_ok.mp hrun
      obtain ⟨hagain, hsized, rfl⟩ := sizeBefore_eq_ok_iff.mp ⟨size, hsize⟩
      cases hrun
      -- What follows the creation of the parents is stated of the files that it leaves.
      refine ⟨hfound, hno, hlooked, ?_, hagain, ?_, ?_⟩
      · rw [hparent]
      · rw [hparent]
        exact hsized
      · rw [hparent]
        exact hopen

/-- What comes before the `open` makes directories and nothing else. -/
theorem onlyMakesDirectories_prepare (create_dirs : Arg) :
    (prepare os target create_dirs).OnlyMakesDirectories := by
  have hexists : (existsAsDirectory os target).OnlyMakesDirectories :=
    .bind (OS.onlyMakesDirectories_ask _ _) fun _ =>
      .ite (OS.onlyMakesDirectories_ask _ _) (.pure _)
  have hparent : (makeParent os target create_dirs).OnlyMakesDirectories :=
    .ite (OS.onlyMakesDirectories_mkdir _ _) (.pure _)
  have hsize : (sizeBefore os target).OnlyMakesDirectories :=
    .bind (OS.onlyMakesDirectories_ask _ _) fun _ =>
      .ite (OS.onlyMakesDirectories_ask _ _) (.pure _)
  exact .bind hexists fun _ => .ite (.pure _) (.bind hparent fun _ => .bind hsize fun _ => .pure _)

end WriteFileTool

/-! ## `CreateFileFolderTool` -/

namespace CreateFileFolderTool

variable {os : OS} {target : Path} {fs : FileSystem}

/-- The run comes to the `open`, which succeeds. -/
structure Opens (os : OS) (fs : FileSystem) (kind recursive : Arg) (target : Path) : Prop where
  /-- Nothing stands at the target, as far as the call tells. -/
  found : os.fault .found = none
  absent : fs.node target = none
  file : kind = .text (text "file")
  /-- Its parent is made, if that is asked for. -/
  parent : ((makeParent os target recursive).runFrom fs).1 = .ok ()
  opened : ((os.openFile false target).runFrom
    ((makeParent os target recursive).runFrom fs).2).1 = .ok ()

/-- These are the runs in which something is prepared and then opened. -/
theorem opens_iff {kind recursive : Arg} :
    Opens os fs kind recursive target ↔
      ∃ before fs', (prepare os target kind recursive).runFrom fs = (.ok (.inr before), fs') ∧
        ((os.openFile false target).runFrom fs').1 = .ok () := by
  have hfound : (os.pathExists .found target).runFrom fs =
      ((os.fault .found).elim (.ok (fs.node target).isSome) .error, fs) := OS.runFrom_ask ..
  unfold prepare
  constructor
  · intro h
    refine ⟨(), _, ?_, h.opened⟩
    rw [h.found, h.absent] at hfound
    rw [FileM.runFrom_bind_of_ok hfound, h.file]
    exact FileM.runFrom_bind_of_ok (Prod.ext h.parent rfl) _
  · rintro ⟨before, fs'', hrun, hopen⟩
    obtain ⟨found, fs', hfound', hrun⟩ := FileM.runFrom_bind_eq_ok.mp hrun
    rw [hfound] at hfound'
    cases hfault : os.fault .found with
    | some e =>
      rw [hfault] at hfound'
      cases hfound'
    | none =>
      rw [hfault] at hfound'
      cases hfound'
      cases habsent : fs.node target with
      | some n =>
        rw [habsent] at hrun
        cases hrun
      | none =>
        rw [habsent] at hrun
        -- Of the three kinds, only a file is opened.
        by_cases hdirectory : kind = .text (text "directory")
        · rw [if_neg (by simp), if_pos hdirectory] at hrun
          obtain ⟨⟨⟩, fs', -, hrun⟩ := FileM.runFrom_bind_eq_ok.mp hrun
          cases hrun
        rw [if_neg (by simp), if_neg hdirectory] at hrun
        by_cases hfile : kind = .text (text "file")
        · rw [if_pos hfile] at hrun
          obtain ⟨⟨⟩, fs', hparent, hrun⟩ := FileM.runFrom_bind_eq_ok.mp hrun
          cases hrun
          refine ⟨hfault, habsent, hfile, ?_, ?_⟩
          · rw [hparent]
          · rw [hparent]
            exact hopen
        · rw [if_neg hfile] at hrun
          cases hrun

/-- What comes before the `open` makes directories and nothing else. -/
theorem onlyMakesDirectories_prepare (kind recursive : Arg) :
    (prepare os target kind recursive).OnlyMakesDirectories := by
  have hparent : (makeParent os target recursive).OnlyMakesDirectories :=
    .ite (.bind (OS.onlyMakesDirectories_ask _ _) fun _ =>
      .ite (.pure _) (OS.onlyMakesDirectories_mkdir _ _)) (.pure _)
  exact .bind (OS.onlyMakesDirectories_ask _ _) fun _ => .ite (.pure _)
    (.ite (.bind (OS.onlyMakesDirectories_mkdir _ _) fun _ => .pure _)
      (.ite (.bind hparent fun _ => .pure _) (.pure _)))

end CreateFileFolderTool

/-! ## Both tools -/

/-- A failed run leaves every file as it was, and makes none, just if it does not fail behind the
`open`, or if what it has written by then is what was there. For a new file it never is. -/
theorem failed_write_changes_nothing_iff (os : OS) (fs : FileSystem) :
    (∀ filepath content append create_dirs : Arg,
      ChangesNothing fs (WriteFileTool.execute os fs filepath content append create_dirs) ↔
        ∀ target, resolvePath os filepath = .ok (.inr target) →
          WriteFileTool.Opens os fs append create_dirs target → os.FailsOpened content.data →
            ¬ FileTree.Overwrites append.truthy (os.written content.data).1 (fs.node target)) ∧
    ∀ path kind content recursive : Arg,
      ChangesNothing fs (CreateFileFolderTool.execute os fs path kind content recursive) ↔
        ∀ target, resolvePath os path = .ok (.inr target) →
          CreateFileFolderTool.Opens os fs kind recursive target →
            ¬ os.FailsOpened (CreateFileFolderTool.data content) := by
  -- The body's failures that count are those after the file is open: till then only directories
  -- were made.
  constructor
  · intro filepath content append create_dirs
    refine (changesNothing_tryTarget_iff (by decide)).trans
      (forall_congr' fun target => imp_congr_right fun _ => ?_)
    refine (failed_writeTarget_iff (WriteFileTool.onlyMakesDirectories_prepare create_dirs)
      fun _ _ => rfl).trans ?_
    -- The write opens the file if the preparation came through and the opening did.
    rw [WriteFileTool.opens_iff]
    exact ⟨fun h ⟨before, fs', hrun, hopen⟩ => h before fs' hrun hopen,
      fun h before fs' hrun hopen => h ⟨before, fs', hrun, hopen⟩⟩
  · intro path kind content recursive
    refine (changesNothing_tryTarget_iff (by decide)).trans
      (forall_congr' fun target => imp_congr_right fun _ => ?_)
    refine (failed_writeTarget_iff
      (CreateFileFolderTool.onlyMakesDirectories_prepare kind recursive) fun _ _ => rfl).trans ?_
    constructor
    -- A file that is to be created was not there, so whatever remains of it is a change.
    · intro h hopens hfails
      obtain ⟨before, fs', hrun, hopen⟩ := CreateFileFolderTool.opens_iff.mp hopens
      refine h before fs' hrun hopen hfails ?_
      rw [hopens.absent]
      trivial
    · intro h before fs' hrun hopen hfails
      exact absurd hfails (h (CreateFileFolderTool.opens_iff.mpr ⟨before, fs', hrun, hopen⟩))

/-! ## A lone surrogate -/

/-- A system in which no call raises. -/
def calmOS : OS where
  resolve path := .ok [path.drop 1]
  fault _ := none
  mkdirFault := none
  room := none
  size _ := 0
  repr _ := "'/notes'"

/-- A file system with one file. -/
def oneFile : FileSystem where
  node path :=
    if path = [] then some .directory
    else if path = [text "notes"] then some (.file [104, 105])
    else none

/-- A failed write has emptied the file. -/
theorem failed_write_empties_file :
    let run := WriteFileTool.execute calmOS oneFile (.text (text "/notes")) (.text [0xd800])
    oneFile.file? [text "notes"] = some [104, 105] ∧ run.2.file? [text "notes"] = some [] ∧
      ¬ ChangesNothing oneFile run := by
  have hold : oneFile.file? [text "notes"] = some [104, 105] := by decide
  have hempty : (WriteFileTool.execute calmOS oneFile (.text (text "/notes"))
      (.text [0xd800])).2.file? [text "notes"] = some [] := by decide
  refine ⟨hold, hempty, fun h => ?_⟩
  have hsame := h _ rfl rfl [text "notes"]
  rw [hold, hempty] at hsame
  cases hsame

end YellowBull
